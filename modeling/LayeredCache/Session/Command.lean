import LayeredCache.Builder.Plan
import LayeredCache.Config.Basic
import LayeredCache.Layer.Survey
import LayeredCache.Registry
import LayeredCache.Session.Sample

/-!
# The commands of a session and their answers

Commands name caches, clocks, signals, units of work, buffers, leases and instances. Values are
given as a text, of which a new instance is made, or as an instance that the session holds.
-/

namespace LayeredCache

/-- Where the value of a command comes from. -/
inductive ValueSource where
  /-- A new instance of a text. -/
  | text (s : String)
  /-- The instance that is held under a name. -/
  | held (name : String)
  deriving DecidableEq, Repr

/-- What a session can be told to do. -/
inductive Command where
  /-- Stacks layers over a new base store without the checks of building. -/
  | compose (name id : String) (layers : List LayerPlan)
  /-- Stacks layers over the base store of another cache. -/
  | composeOver (name other : String) (layers : List LayerPlan)
  /-- Builds a chain of layers. -/
  | buildChain (name id : String) (layers : List Layer)
  /-- Builds the chain of a builder. -/
  | build (name : String) (plan : BuilderPlan)
  /-- Names the base store of a cache as a cache of its own. -/
  | baseOf (name cache : String)
  | put (cache : String) (key : Key) (value : ValueSource) (hold : Option String)
  | get (cache : String) (key : Key) (hold : Option String)
  | remove (cache : String) (key : Key) (hold : Option String)
  | release (cache : String) (key : Key)
  | clear (cache : String)
  | size (cache : String)
  | isEmpty (cache : String)
  | identify (cache : String)
  /-- Whether two caches have the same identifier. -/
  | equal (cache other : String)
  /-- Counts the identifiers of caches. -/
  | distinct (caches : List String)
  /-- Describes a cache by its identifier and size. -/
  | inspect (cache : String)
  /-- Stores a value under each number of a range, then counts the stored keys. -/
  | fill (cache : String) (first last : Int)
  /-- Looks each number of a range up. -/
  | read (cache : String) (first last : Int)
  /-- The numbers of a range that are in the base store. -/
  | present (cache : String) (first last : Int)
  /-- Whether a key is in the base store. -/
  | contains (cache : String) (key : Key)
  /-- Stores bytes in the base store. -/
  | putBytes (cache : String) (key : Key) (bytes : List UInt8)
  /-- The bytes in the base store. -/
  | getBytes (cache : String) (key : Key)
  | layer (cache : String) (index : Nat)
  | setBound (cache : String) (index bound : Nat)
  | collect (cache : String) (index : Nat)
  | purge (cache : String) (index : Nat)
  /-- Moves a clock on. -/
  | advance (clock : String) (span : Span)
  /-- Raises a signal. -/
  | raise (signal : String)
  /-- Makes an instance and holds it. -/
  | hold (value : ValueSource) (name : Option String)
  /-- Lets a held instance go. -/
  | letGo (name : String)
  /-- Compares two held instances. -/
  | compare (a b : String)
  | unitGet (unit cache : String) (key : Key) (hold : Option String)
  | unitPut (unit cache : String) (key : Key) (value : ValueSource) (hold : Option String)
  | unitClear (unit cache : String)
  | unitCommit (unit : String)
  | unitRollback (unit : String)
  | unitSize (unit : String)
  /-- Opens a write buffer over one cache. -/
  | openBuffer (buffer cache : String)
  | bufferGet (buffer : String) (key : Key) (hold : Option String)
  | bufferPut (buffer : String) (key : Key) (value : ValueSource) (hold : Option String)
  | bufferClear (buffer : String)
  | bufferCommit (buffer : String)
  | bufferRollback (buffer : String)
  /-- Whether the cache below a buffer has the identifier of another cache. -/
  | bufferOver (buffer cache : String)
  /-- Puts a value under a lease outside all caches. -/
  | lease (name : String) (value : ValueSource) (pinned : Bool) (hold : Option String)
  | unpin (name : String)
  | leaseState (name : String) (hold : Option String)
  /-- Builds the caches of a configuration and registers them. -/
  | loadRegistry (config : Config)
  | register (cache : String)
  /-- Names a registered cache. -/
  | registered (id name : String)
  /-- Waits for the answer of the command that a thread was started with. -/
  | join (thread : String)

/-- A command with the thread it runs on. A detached one is not waited for. -/
structure Step where
  command : Command
  thread : String := "main"
  detached : Bool := false

/-- What a command answers. -/
inductive Answer where
  | done
  | started
  | found (value : Option String)
  | number (n : Nat)
  | truth (b : Bool)
  | text (s : String)
  /-- A cache with its identifier, or no cache. -/
  | cache (id : Option String)
  | entries (pairs : List (Int × String))
  | numbers (ns : List Int)
  | bytes (content : Option (List UInt8))
  | layer (report : LayerReport)
  | comparison (same equal : Bool)
  /-- How a commit ended and how many participants are left. -/
  | committed (failure : Option (CacheError Key)) (left : Nat)
  /-- The answer of a buffer with its state. -/
  | buffered (answer : Answer) (id : String) (pending : Nat) (clean : Bool)
  | leased (pinned reclaimed : Bool) (value : Option String)
  | registry (report : Registry.Report)
  /-- The identifier and the size of the cache that was replaced, and the registry. -/
  | registered (replaced : Option (String × Nat)) (report : Registry.Report)
  | failed (cause : CacheError Key)
  /-- A name in the command stands for nothing. -/
  | unknown
  /-- The command waits for something that will never happen. -/
  | stuck

/-- The answer of a finished lookup. -/
def Answer.ofFound (f : Found Key Sample) : Answer :=
  match f with
  | .error e => .failed e
  | .ok c => .found (c.bind fun c => c.item.value?.map (·.text))

/-- The answer of a write. -/
def Answer.ofWritten (w : Written Key) : Answer :=
  match w with
  | .error e => .failed e
  | .ok _ => .done

end LayeredCache
