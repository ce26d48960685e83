import LayeredCache.Session.Course

/-!
# What the threads of a session are at

A command is a task of its thread, which takes its tasks one after the other. A task that has begun
is what is left of its course, so a session with waiting threads is a state like any other one.

A lock goes to the tasks that wait for it in the order in which they came. When it is given back it
is handed to the first of them, but only once at a time: given back again before time has passed, it
is free for whoever takes it first, and the thread that runs comes before the one that is woken.
-/

namespace LayeredCache

/-- How far a task has come. -/
inductive Stage where
  /-- Its turn has not come yet. -/
  | told (command : Command)
  /-- It has begun, and this is left. -/
  | begun (rest : Course Answer)

/-- A task of a thread. -/
structure Task where
  /-- The number that tells it from other tasks. -/
  number : Nat
  thread : String
  stage : Stage
  /-- What it told the journal so far, in order. -/
  events : List (Event Key) := []

namespace Task

/-- Whether a task waits for a lock. -/
def waitsFor (t : Task) (l : Lock) : Bool :=
  match t.stage with
  | .begun (.take l' _) => l' = l
  | _ => false

/-- A task that waited for a lock, with the lock taken. -/
def pass (t : Task) : Task :=
  match t.stage with
  | .begun (.take _ next) => { t with stage := .begun next }
  | _ => t

/-- What is left of a task. -/
def rest (t : Task) : Course Answer :=
  match t.stage with
  | .told command => .ofCommand command
  | .begun rest => rest

/-- Until when a task waits at most. -/
def deadline? (t : Task) : Option Span :=
  match t.stage with
  | .begun (.await _ deadline _) => deadline
  | _ => none

end Task

/-- The state of a session. -/
structure Session extends World where
  /-- The tasks that are not done, the one that waits longest in front. -/
  tasks : List Task := []
  /-- The number of the next task. -/
  told : Nat := 0
  /-- The locks that are taken. -/
  taken : List Lock := []
  /-- When each lock was handed over last. -/
  handed : Table Lock Span := .empty
  /-- The locks that were set free in the turn that is under way, with a task woken for each. -/
  freed : List Lock := []

namespace Session

/-- Takes a free lock. -/
def take (s : Session) (l : Lock) : Session := { s with taken := l :: s.taken }

/-- Gives a lock back. -/
def give (s : Session) (l : Lock) : Session :=
  match s.tasks.find? (·.waitsFor l) with
  | none => { s with taken := s.taken.erase l }
  | some t =>
    if s.handed.find? l = some s.now then
      { s with taken := s.taken.erase l, freed := l :: s.freed }
    else
      { s with handed := s.handed.insert l s.now
               tasks := s.tasks.map fun u => if u.number = t.number then u.pass else u }

/-- Sends a task that was woken for a lock to the end if somebody else has taken the lock. -/
def requeue (s : Session) (l : Lock) : Session :=
  match s.tasks.find? (·.waitsFor l) with
  | none => s
  | some t =>
    if s.taken.contains l then
      { s with tasks := s.tasks.filter (·.number ≠ t.number) ++ [t] }
    else s

/-- Follows a course as far as it goes without waiting; the course that comes out is what is
left. -/
def follow (thread : String) : Course Answer → Session → Course Answer × Session
  | .done a, s => (.done a, s)
  | .step change next, s =>
    let m := s.moment thread
    follow thread (next m s.toWorld) { s with toWorld := change m s.toWorld }
  | .take l next, s =>
    if s.taken.contains l then (.take l next, s) else follow thread next (s.take l)
  | .give l next, s => follow thread next (s.give l)
  | .grasp x next, s => follow thread next { s with toWorld := s.toWorld.grasp thread x }
  | .drop x next, s => follow thread next { s with toWorld := s.toWorld.drop thread x }
  | .await ready deadline next, s =>
    if ready (s.moment thread) s.toWorld then follow thread (next .opened) s
    else if deadline.any (· ≤ s.now) then follow thread (next .expired) s
    else (.await ready deadline next, s)

/-- Whether a thread is free for a task that it was told: it has begun no other one, and was told
none before. -/
def isFree (s : Session) (t : Task) : Bool :=
  let others := s.tasks.filter (·.thread = t.thread)
  (others.head?.any (·.number = t.number)) &&
    others.all fun u => match u.stage with | .told _ => true | .begun _ => false

/-- Whether a task can go on. -/
def canGoOn (s : Session) (t : Task) : Bool :=
  match t.stage with
  | .told _ => s.isFree t
  | .begun (.take l _) => !s.taken.contains l
  | .begun (.await ready deadline _) =>
    ready (s.moment t.thread) s.toWorld || deadline.any (· ≤ s.now)
  | .begun _ => true

/-- Puts away what a task has come to: its answer, or what is left of it. -/
def store (s : Session) (t : Task) (events : List (Event Key)) : Course Answer → Session
  | .done answer =>
    let s := { s with results := s.results.insert t.number (answer, events) }
    { s with toWorld := s.toWorld.dropAll t.thread }
  | rest => { s with tasks := s.tasks ++ [{ t with stage := .begun rest, events := events }] }

/-- Gives a task its turn. -/
def turn (s : Session) (t : Task) : Session :=
  let others := s.tasks.filter (·.number ≠ t.number)
  let (rest, s) := follow t.thread t.rest { s with tasks := others, freed := [] }
  let events := t.events ++ s.ground.journal.reverse
  let s := { s with ground := { s.ground with journal := [] } }
  let s := s.freed.foldr (fun l s => s.requeue l) (s.store t events rest)
  { s with toWorld := s.toWorld.prune }

/-- Gives the first task that can go on its turn. -/
def turnNext? (s : Session) : Option Session := (s.tasks.find? s.canGoOn).map s.turn

/-- When the next task gives up waiting. -/
def nextDeadline? (s : Session) : Option Span := (s.tasks.filterMap (·.deadline?)).min?

end Session

end LayeredCache
