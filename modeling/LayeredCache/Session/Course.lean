import LayeredCache.Session.World

/-!
# What commands do

Every command has an answer, and a failing one does not end the session. A command finds the caches
and instances that it names, makes new instances and holds what it puts as soon as its thread turns
to it. What it has found it has in hand, also while it waits, until it is done; but an instance that
it puts is in hand only until it is stored, and a chain only until it is registered. Commands on a
unit of work or a buffer lock it, and keep it locked while they wait inside a cache.
-/

namespace LayeredCache

/-- What commands lock. -/
inductive Lock where
  /-- The layer of a chain that has `depth` layers outside itself. -/
  | layer (chain depth : Nat)
  /-- A unit of work. -/
  | unit (name : String)
  /-- A write buffer. -/
  | buffer (number : Nat)
  deriving DecidableEq, Repr

/-- What a thread does to the world. -/
abbrev Course := Process World Lock Thing

namespace Course

variable {ρ : Type}

/-- The key of a number in a range. -/
def numberKey (i : Int) : Key := .ofParts [.int (Int64.ofInt i)]

/-- The numbers from `first` on that are less than `last`. -/
def range (first last : Int) : List Int :=
  (List.range (last - first).toNat).map fun i => first + Int.ofNat i

/-! ## What commands have in hand -/

/-- The world as it is. -/
def world : Course World := .see fun _ w => w

/-- Changes the world. -/
def change (f : World → World) : Course Unit := .alter fun _ w => f w

/-- Finds the chain with a number. -/
def withChain (r : Nat) (f : Chain Key → Course Answer) : Course Answer := do
  match (← world).chains.find? r with
  | none => return .unknown
  | some c => f c

/-- Finds a cache by its name and has it in hand: its chain, and the number of it. -/
def withCache (name : String) (f : Chain Key → Nat → Course Answer) : Course Answer := do
  match (← world).names.find? name with
  | none => return .unknown
  | some r =>
    .holding (.chain r)
    withChain r fun c => f c r

/-- Finds a buffer by its name and has it in hand: its number, and the chain below it with the number
of that. -/
def withBuffer (name : String) (f : Nat → Chain Key → Nat → Course Answer) : Course Answer := do
  let w ← world
  match (w.bufferNames.find? name).bind fun n => (w.buffers.find? n).map fun b => (n, b.1) with
  | none => return .unknown
  | some (n, r) =>
    .holding (.buffer n)
    withChain r fun c => f n c r

/-- Makes a new instance of content, and has it in hand. -/
def make (content : Content Sample) : Course (Item Sample) := do
  let i ← .act fun _ w => (⟨w.ground.issued, content⟩, { w with ground := w.ground.issue })
  .holding (.item i.serial)
  return i

/-- Holds an instance under a name, if there is a name. -/
def holdAs (hold : Option String) (i : Item Sample) : Course Unit :=
  match hold with
  | none => return
  | some name => change fun w => { w with held := w.held.insert name i }

/-- Finds or makes the instance that a command is given and has it in hand, and holds it under a name
if it is told to. -/
def withInstance (source : ValueSource) (hold : Option String) (f : Item Sample → Course Answer) :
    Course Answer := do
  match source with
  | .text text =>
    let i ← make (.plain ⟨text⟩)
    holdAs hold i
    f i
  | .held name =>
    match (← world).held.find? name with
    | none => return .unknown
    | some i =>
      .holding (.item i.serial)
      holdAs hold i
      f i

/-- The answer of a finished lookup; what was found is held under a name, if there is one. -/
def answerFound (hold : Option String) (found : Found Key Sample) : Course Answer := do
  match found with
  | .ok (some c) => holdAs hold c.item
  | _ => pure ()
  return .ofFound found

/-! ## Caches -/

/-- Does what a routine of the chain `c` says, whose number is `r`. -/
def call (c : Chain Key) (r : Nat) (p : Routine Key Sample (Stack Key c.kinds) ρ) : Course ρ :=
  p.within (fun w => (w.stack c r, w.ground))
    (fun t w => { w.setStack c r t.1 with ground := t.2 }) (.layer r) .item

/-- Counts the stored keys of a chain. -/
def sizeOf (c : Chain Key) (r : Nat) : Course Nat := call c r c.routines.size

/-- Stores the values of numbers, up to the first failure, and counts the stored keys. -/
def fill (c : Chain Key) (r : Nat) : List Int → Course Answer
  | [] => .number <$> sizeOf c r
  | i :: rest => do
    let item ← make (.plain ⟨"v" ++ toString i⟩)
    match ← call c r (c.routines.put (numberKey i) { item := item }) with
    | .error e => return .failed e
    | .ok _ => fill c r rest

/-- Looks numbers up, up to the first failure; `found` are the entries that were found before, the
latest one first. -/
def read (c : Chain Key) (r : Nat) : List Int → (found : List (Int × String)) → Course Answer
  | [], found => return .entries found.reverse
  | i :: rest, found => do
    match ← call c r (c.routines.get (numberKey i)) with
    | .error e => return .failed e
    | .ok cell =>
      match cell.bind (·.item.value?) with
      | none => read c r rest found
      | some v => read c r rest ((i, v.text) :: found)

/-- Stacks layers over a base store without the checks of building, but not without an
identifier. -/
def compose (name id : String) (base : Nat) (layers : List LayerPlan) : Course Answer :=
  if id.isEmpty then return .failed .missingId
  else .act fun m w =>
    let chain := (Chain.bare id base).compose m (layers.map (·.resolve))
    (.cache (some id), { w.add name chain with composed := w.composed.insert name w.made })

/-- Gives a chain that was built a name. -/
def adopt (name : String)
    (build : World → Moment → Ground Key Sample × Except (CacheError Key) (Chain Key)) :
    Course Answer :=
  .act fun m w =>
    match build w m with
    | (g, .error e) => (.failed e, { w with ground := g })
    | (g, .ok c) => (.cache (some c.id), ({ w with ground := g } : World).add name c)

/-- Stores bytes in the base store of a chain. -/
def putBytes (c : Chain Key) (key : Key) (bytes : List UInt8) : Course Answer := do
  let item ← make (.packed bytes)
  change fun w =>
    let cells := (w.ground.store c.base).insert key { item := item }
    { w with ground := w.ground.setStore c.base cells }
  return .done

/-! ## Units of work -/

/-- Changes a unit of work. -/
def changeUnit (name : String)
    (f : UnitOfWork Nat Key Sample → UnitOfWork Nat Key Sample) : Course Unit :=
  change fun w => { w with units := w.units.insert name (f (w.unit name)) }

/-- Reads through the participant with the identifier of a chain. -/
def unitGet (unit : String) (c : Chain Key) (r : Nat) (key : Key) (hold : Option String) :
    Course Answer := do
  changeUnit unit (·.join r c.id)
  match ((← world).unit unit).participant? c.id with
  | none => return .unknown
  | some p =>
    withChain p.cache fun d => do
      match ← call d p.cache (d.routines.get key) with
      | .error e => return .failed e
      | .ok found =>
        let (_, seen) := p.buffer.learn key found
        changeUnit unit fun u => u.modify c.id fun b => (b.learn key found).1
        answerFound hold (.ok seen)

/-- Sets the participants of a unit of work that are left, and lets go of the others. -/
def leave (unit : String) (rest : List (Participant Nat Key Sample)) : Course Unit :=
  change fun w => ({ w with units := w.units.insert unit ⟨rest⟩ } : World).prune

/-- Commits participants in order up to the first that fails. One that was committed takes part no
more. -/
def unitCommit (unit : String) : List (Participant Nat Key Sample) → Course Answer
  | [] => return .committed none 0
  | p :: rest =>
    withChain p.cache fun c => do
      match ← call c p.cache (p.buffer.committing c.routines) with
      | .error e =>
        change fun w => { w with ground := w.ground.note (.commitFailed p.id e) }
        return .committed (some e) (rest.length + 1)
      | .ok _ =>
        leave unit rest
        unitCommit unit rest

/-- Rolls participants back in order. -/
def unitRollback (unit : String) : List (Participant Nat Key Sample) → Course Answer
  | [] => return .done
  | p :: rest =>
    withChain p.cache fun c => do
      call c p.cache (p.buffer.releasing c.routines)
      leave unit rest
      unitRollback unit rest

/-! ## Buffers -/

/-- The buffer with a number. -/
def buffer (n : Nat) : Course (Buffer Key Sample) :=
  .see fun _ w => ((w.buffers.find? n).map (·.2)).getD {}

/-- Changes a buffer. -/
def changeBuffer (n : Nat) (f : Buffer Key Sample → Buffer Key Sample) : Course Unit :=
  change fun w => { w with buffers := w.buffers.modify n fun b => (b.1, f b.2) }

/-- An answer together with the state of the buffer over a chain. -/
def report (n : Nat) (c : Chain Key) (answer : Answer) : Course Answer := do
  let b ← buffer n
  return .buffered answer c.id b.pending b.isClean

/-- Reads through a buffer. -/
def bufferGet (n : Nat) (c : Chain Key) (r : Nat) (key : Key) (hold : Option String) :
    Course Answer := do
  match ← call c r (c.routines.get key) with
  | .error e => return .failed e
  | .ok found =>
    let (_, seen) := (← buffer n).learn key found
    changeBuffer n fun b => (b.learn key found).1
    report n c (← answerFound hold (.ok seen))

/-- Commits a buffer, which is clean afterwards unless a write fails. -/
def bufferCommit (n : Nat) (c : Chain Key) (r : Nat) : Course Answer := do
  match ← call c r ((← buffer n).committing c.routines) with
  | .error e => report n c (.failed e)
  | .ok _ =>
    changeBuffer n fun _ => {}
    report n c .done

/-- Rolls a buffer back. -/
def bufferRollback (n : Nat) (c : Chain Key) (r : Nat) : Course Answer := do
  call c r ((← buffer n).releasing c.routines)
  changeBuffer n fun _ => {}
  report n c .done

/-! ## The registry and other threads -/

/-- Builds the caches of a configuration and registers them, unless one cannot be built. -/
def loadRegistry (config : Config) : Course Answer :=
  .act fun m w =>
    match Registry.load m w.made config w.ground with
    | (g, .error e) => (.failed e, { w with ground := g })
    | (g, .ok (chains, registry)) =>
      let w : World := chains.foldl (fun w c =>
        { w with chains := w.chains.insert w.made c, made := w.made + 1 })
        { w with ground := g, registry := registry }
      (.registry registry.report, w)

/-- Registers a chain, which is in hand before, and counts the stored keys of the one that it
replaces. -/
def register (c : Chain Key) (r : Nat) : Course Answer := do
  let (registry, replaced) := (← world).registry.register c.id r
  change fun w => { w with registry := registry }
  match replaced with
  | none => return .registered none registry.report
  | some old =>
    .holding (.chain old)
    .dropping (.chain r)
    withChain old fun d => do
      let size ← sizeOf d old
      return .registered (some (d.id, size)) (← world).registry.report

/-- Waits for the answer of a task, and tells the journal what it told. -/
def join (thread : String) (number : Nat) : Course Answer := do
  let _ ← .wait (fun _ w => w.results.contains number) none
  .act fun _ w =>
    match w.results.find? number with
    | none => (.unknown, w)
    | some (answer, events) =>
      (answer,
        { w with detached := w.detached.erase thread, results := w.results.erase number
                 ground := { w.ground with journal := events.reverse ++ w.ground.journal } })

/-- What a command does. -/
def ofCommand : Command → Course Answer
  | .compose name id layers => do compose name id (← world).made layers
  | .composeOver name other layers =>
    withCache other fun c _ => compose name c.id c.base layers
  | .buildChain name id layers =>
    adopt name fun w m => Chain.build id w.made .silent layers m w.ground
  | .build name plan =>
    match plan.resolve with
    | .error e => return .failed e
    | .ok builder => adopt name fun w m => builder.build w.made m w.ground
  | .baseOf name cache =>
    withCache cache fun c _ => do
      change (·.add name (Chain.bare c.id c.base))
      return .cache (some c.id)
  | .put cache key value hold =>
    withCache cache fun c r => withInstance value hold fun i =>
      .ofWritten <$> call c r (c.routines.put key { item := i })
  | .get cache key hold =>
    withCache cache fun c r => do answerFound hold (← call c r (c.routines.get key))
  | .remove cache key hold =>
    withCache cache fun c r => do answerFound hold (.ok (← call c r (c.routines.remove key)))
  | .release cache key =>
    withCache cache fun c r => do
      call c r (c.routines.release key)
      return .done
  | .clear cache =>
    withCache cache fun c r => do
      call c r c.routines.clear
      return .done
  | .size cache => withCache cache fun c r => .number <$> sizeOf c r
  | .isEmpty cache => withCache cache fun c r => do return .truth ((← sizeOf c r) == 0)
  | .identify cache => withCache cache fun c _ => return .text c.id
  | .equal cache other =>
    withCache cache fun c _ => withCache other fun d _ => return .truth (c.id == d.id)
  | .distinct caches => do
    let w ← world
    let chains := (caches.filterMap w.names.find?).filterMap w.chains.find?
    return .number (chains.map (·.id)).eraseDups.length
  | .inspect cache =>
    withCache cache fun c r => do
      let size ← sizeOf c r
      return .text ("Cache \x7b id: " ++ Text.Quoted.encode c.id ++ ", size: " ++ toString size ++
        " \x7d")
  | .fill cache first last => withCache cache fun c r => fill c r (range first last)
  | .read cache first last => withCache cache fun c r => read c r (range first last) []
  | .present cache first last =>
    withCache cache fun c _ => do
      let w ← world
      return .numbers ((range first last).filter fun i => (w.stored? c (numberKey i)).isSome)
  | .contains cache key =>
    withCache cache fun c _ => do return .truth ((← world).stored? c key).isSome
  | .putBytes cache key bytes => withCache cache fun c _ => putBytes c key bytes
  | .getBytes cache key =>
    withCache cache fun c _ => do
      match (← world).stored? c key with
      | some ⟨⟨_, .packed bytes⟩, _⟩ => return .bytes (some bytes)
      | _ => return .bytes none
  | .layer cache index =>
    withCache cache fun c _ => do
      match (c.reports (← world).pressure)[index]? with
      | none => return .unknown
      | some report => return .layer report
  | .setBound cache index bound =>
    withCache cache fun _ r => do
      change fun w => { w with chains := w.chains.modify r (·.setBound index bound) }
      return .done
  | .collect cache index => withCache cache fun c r => .number <$> call c r (c.collecting index)
  | .purge cache index => withCache cache fun c r => .number <$> call c r (c.purging index)
  | .advance clock span => do
    change fun w => { w with clocks := w.clocks.insert clock (w.time (.manual clock) + span) }
    return .done
  | .raise signal => do
    let generation := (← world).pressure (.shared signal) + 1
    change fun w => { w with signals := w.signals.insert signal generation }
    return .number generation
  | .hold value name => withInstance value name fun _ => return .done
  | .letGo name => do
    let held := (← world).held.contains name
    change fun w => { w with held := w.held.erase name }
    return .truth held
  | .compare a b => do
    let w ← world
    match w.held.find? a, w.held.find? b with
    | some x, some y => return .comparison (x.serial == y.serial) (x.content = y.content)
    | _, _ => return .unknown
  | .unitGet unit cache key hold =>
    withCache cache fun c r => .locked (.unit unit) (unitGet unit c r key hold)
  | .unitPut unit cache key value hold =>
    withCache cache fun c r => withInstance value hold fun i => .locked (.unit unit) do
      changeUnit unit (·.put r c.id key i)
      .dropping (.item i.serial)
      return .done
  | .unitClear unit cache =>
    withCache cache fun c r => .locked (.unit unit) do
      changeUnit unit (·.clear r c.id)
      return .done
  | .unitCommit unit => .locked (.unit unit) do
    unitCommit unit ((← world).unit unit).participants
  | .unitRollback unit => .locked (.unit unit) do
    unitRollback unit ((← world).unit unit).participants
  | .unitSize unit => .locked (.unit unit) do return .number ((← world).unit unit).size
  | .openBuffer buffer cache =>
    withCache cache fun _ r => do
      change fun w =>
        { w with buffers := w.buffers.insert w.opened (r, {}), opened := w.opened + 1
                 bufferNames := w.bufferNames.insert buffer w.opened }
      return .done
  | .bufferGet buffer key hold =>
    withBuffer buffer fun n c r => .locked (.buffer n) (bufferGet n c r key hold)
  | .bufferPut buffer key value hold =>
    withBuffer buffer fun n c _ => withInstance value hold fun i => .locked (.buffer n) do
      changeBuffer n (·.put key i)
      .dropping (.item i.serial)
      report n c .done
  | .bufferClear buffer =>
    withBuffer buffer fun n c _ => .locked (.buffer n) do
      changeBuffer n Buffer.clear
      report n c .done
  | .bufferCommit buffer =>
    withBuffer buffer fun n c r => .locked (.buffer n) (bufferCommit n c r)
  | .bufferRollback buffer =>
    withBuffer buffer fun n c r => .locked (.buffer n) (bufferRollback n c r)
  | .bufferOver buffer cache =>
    withBuffer buffer fun n c _ => withCache cache fun d _ => .locked (.buffer n) do
      report n c (.truth (c.id == d.id))
  | .lease name value pinned hold =>
    withInstance value hold fun i => do
      change fun w => { w with leases := w.leases.insert name ⟨i, pinned⟩ }
      return .done
  | .unpin name => do
    match (← world).leases.find? name with
    | none => return .unknown
    | some l =>
      change fun w => { w with leases := w.leases.insert name { l with pinned := false } }
      return .truth l.pinned
  | .leaseState name hold => do
    let w ← world
    match w.leases.find? name with
    | none => return .unknown
    | some l =>
      if w.isAlive l.item.serial then
        holdAs hold l.item
        return .leased l.pinned false (l.item.value?.map (·.text))
      else return .leased l.pinned true none
  | .loadRegistry config => loadRegistry config
  | .register cache => withCache cache fun c r => register c r
  | .registered id name => do
    let w ← world
    match (w.registry.find? id).bind fun r => (w.chains.find? r).map fun c => (r, c.id) with
    | none => return .cache none
    | some (r, id) =>
      change (·.name name r)
      return .cache (some id)
  | .join thread => do
    match (← world).detached.find? thread with
    | none => return .unknown
    | some number => join thread number

end Course

end LayeredCache
