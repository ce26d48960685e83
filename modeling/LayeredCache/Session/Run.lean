import LayeredCache.Session.Task

/-!
# Running the steps of a session

A step tells a thread a command and waits until that is done, or leaves the thread to it. Time does
not pass while any task can go on. When none can, and a step still waits for one, it passes until
the next task gives up waiting.
-/

namespace LayeredCache

namespace Session

/-- Gives tasks their turns until none can go on, and lets time pass up to the next deadline if
`passes` names one, over and over again. -/
def carryOn (passes : Session → Option Span) : (fuel : Nat) → Session → Session
  | 0, s => s
  | fuel + 1, s =>
    match s.turnNext? with
    | some s => carryOn passes fuel s
    | none =>
      match passes s with
      | none => s
      | some deadline => carryOn passes fuel { s with now := max s.now deadline }

/-- The number of turns that tasks are given within one step of a session; they come to an end or
wait for something long before. -/
def patience : Nat := 1000000

/-- Lets tasks go on, and time pass while a certain task is not done. -/
def complete (number : Nat) (s : Session) : Session :=
  s.carryOn (fun s => if s.results.contains number then none else s.nextDeadline?) patience

/-- Lets tasks go on, and time pass up to a point in time. -/
def passTo (stop : Span) (s : Session) : Session :=
  let s := s.carryOn (fun s => s.nextDeadline?.filter (· ≤ stop)) patience
  { s with now := max s.now stop }

/-- Tells a thread a command; the number of the task is `s.told`. -/
def tell (s : Session) (thread : String) (command : Command) : Session :=
  let task : Task := { number := s.told, thread := thread, stage := .told command }
  { s with tasks := s.tasks ++ [task], told := s.told + 1 }

/-- The time that passes while a thread is left to a command. -/
def startSpan : Span := Span.ofMillis 20

/-- Runs a step: its answer and what it told the journal, in order. A task without a result will
never be done. -/
def step (p : Step) (s : Session) : (Answer × List (Event Key)) × Session :=
  let number := s.told
  let s := s.tell p.thread p.command
  if p.detached then
    let s := { s with detached := s.detached.insert p.thread number }
    ((.started, []), s.passTo (s.now + startSpan))
  else
    let s := s.complete number
    ((s.results.find? number).getD (.stuck, []),
      { s with results := s.results.erase number })

/-- What a step of a session shows: its answer, what it told the journal, and the composed chains
after it. -/
structure Outcome where
  answer : Answer
  events : List (Event Key)
  chains : List (String × World.ChainReport)

/-- Runs steps from a state on. -/
def runFrom (s : Session) : List Step → List Outcome
  | [] => []
  | p :: rest =>
    let (result, s) := step p s
    ⟨result.1, result.2, s.reports⟩ :: runFrom s rest

/-- Runs the steps of a session. -/
def run (steps : List Step) : List Outcome := runFrom {} steps

end Session

end LayeredCache
