import LayeredCache.Ground

/-!
# Processes

A process is what one thread does, step by step, to a state that it shares with other threads. The
others come between two of its steps only where the process has to wait: for a lock that another
thread has taken, or until a condition holds. Meanwhile it has things in hand, which are not lost as
long as it does not let go of them. A process that nobody keeps waiting is an ordinary computation
on the state, `run`; a process on a part of a state is one on the whole, `within`.
-/

namespace LayeredCache

/-- What a thread does to a state `τ`, with locks `ν` and things `η` in hand, until it has an answer
`ρ`. -/
inductive Process (τ ν η ρ : Type) where
  /-- It is done. -/
  | done (answer : ρ)
  /-- It changes the state, and goes on as the state was before. -/
  | step (change : Moment → τ → τ) (next : Moment → τ → Process τ ν η ρ)
  /-- It takes a lock, which no thread holds from then on but its own. -/
  | take (lock : ν) (next : Process τ ν η ρ)
  /-- It gives a lock back. -/
  | give (lock : ν) (next : Process τ ν η ρ)
  /-- It has a thing in hand from then on, once more than before. -/
  | grasp (thing : η) (next : Process τ ν η ρ)
  /-- It lets go of a thing once. -/
  | drop (thing : η) (next : Process τ ν η ρ)
  /-- It waits for a condition, not longer than until a point in time. -/
  | await (ready : Moment → τ → Bool) (deadline : Option Span) (next : Wake → Process τ ν η ρ)

namespace Process

variable {τ τ' ν ν' η η' ρ ρ' : Type}

/-- Goes on with what follows from the answer. -/
def bind : Process τ ν η ρ → (ρ → Process τ ν η ρ') → Process τ ν η ρ'
  | done a, f => f a
  | step change next, f => step change fun m t => (next m t).bind f
  | take l next, f => take l (next.bind f)
  | give l next, f => give l (next.bind f)
  | grasp x next, f => grasp x (next.bind f)
  | drop x next, f => drop x (next.bind f)
  | await ready deadline next, f => await ready deadline fun w => (next w).bind f

instance : Monad (Process τ ν η) where
  pure := done
  bind := bind

/-- Changes the state in one step, and answers. -/
def act (f : Moment → τ → ρ × τ) : Process τ ν η ρ :=
  step (fun m t => (f m t).2) fun m t => done (f m t).1

/-- Answers what the state shows. -/
def see (f : Moment → τ → ρ) : Process τ ν η ρ := step (fun _ t => t) fun m t => done (f m t)

/-- Changes the state in one step. -/
def alter (f : Moment → τ → τ) : Process τ ν η Unit := step f fun _ _ => done ()

/-- Does something while it has a lock. -/
def locked (l : ν) (p : Process τ ν η ρ) : Process τ ν η ρ :=
  take l (p.bind fun a => give l (done a))

/-- Waits for a condition. -/
def wait (ready : Moment → τ → Bool) (deadline : Option Span) : Process τ ν η Wake :=
  await ready deadline done

/-- Has a thing in hand from then on. -/
def holding (x : η) : Process τ ν η Unit := grasp x (done ())

/-- Lets go of a thing. -/
def dropping (x : η) : Process τ ν η Unit := drop x (done ())

/-- A process on a part of a state: `part` reads it and `put` replaces it. Locks and things have
other names in the whole. -/
def within (part : τ' → τ) (put : τ → τ' → τ') (lock : ν → ν') (thing : η → η') :
    Process τ ν η ρ → Process τ' ν' η' ρ
  | done a => done a
  | step change next =>
    step (fun m t => put (change m (part t)) t) fun m t =>
      within part put lock thing (next m (part t))
  | take l next => take (lock l) (within part put lock thing next)
  | give l next => give (lock l) (within part put lock thing next)
  | grasp x next => grasp (thing x) (within part put lock thing next)
  | drop x next => drop (thing x) (within part put lock thing next)
  | await ready deadline next =>
    await (fun m t => ready m (part t)) deadline fun w => within part put lock thing (next w)

/-- What a process comes to that nobody keeps waiting, from a state in a moment: the state after it
and the answer, or nothing if it would have to wait for a condition. -/
def run (m : Moment) : Process τ ν η ρ → τ → Option (τ × ρ)
  | done a, t => some (t, a)
  | step change next, t => (next m t).run m (change m t)
  | take _ next, t => next.run m t
  | give _ next, t => next.run m t
  | grasp _ next, t => next.run m t
  | drop _ next, t => next.run m t
  | await ready _ next, t => if ready m t then (next .opened).run m t else none

@[simp] theorem bind_eq (p : Process τ ν η ρ) (f : ρ → Process τ ν η ρ') : p >>= f = p.bind f := rfl

@[simp] theorem pure_eq (a : ρ) : (pure a : Process τ ν η ρ) = done a := rfl

@[simp] theorem run_done (m : Moment) (a : ρ) (t : τ) :
    (done a : Process τ ν η ρ).run m t = some (t, a) := rfl

/-- A process goes on where the one before it has ended. -/
@[simp] theorem run_bind (m : Moment) (p : Process τ ν η ρ) (f : ρ → Process τ ν η ρ') (t : τ) :
    (p.bind f).run m t = (p.run m t).bind fun r => (f r.2).run m r.1 := by
  induction p generalizing t with
  | done a => rfl
  | step change next ih => exact ih m t _
  | take l next ih => exact ih t
  | give l next ih => exact ih t
  | grasp x next ih => exact ih t
  | drop x next ih => exact ih t
  | await ready deadline next ih =>
    simp only [bind, run]
    split
    · exact ih .opened t
    · rfl

@[simp] theorem run_act (m : Moment) (f : Moment → τ → ρ × τ) (t : τ) :
    (act f : Process τ ν η ρ).run m t = some ((f m t).2, (f m t).1) := rfl

@[simp] theorem run_see (m : Moment) (f : Moment → τ → ρ) (t : τ) :
    (see f : Process τ ν η ρ).run m t = some (t, f m t) := rfl

@[simp] theorem run_alter (m : Moment) (f : Moment → τ → τ) (t : τ) :
    (alter f : Process τ ν η Unit).run m t = some (f m t, ()) := rfl

/-- A lock is nothing to a process that nobody keeps waiting. -/
@[simp] theorem run_locked (m : Moment) (l : ν) (p : Process τ ν η ρ) (t : τ) :
    (locked l p).run m t = p.run m t := by
  show (p.bind fun a => give l (done a)).run m t = _
  rw [run_bind]
  cases p.run m t <;> rfl

/-- What a process has in hand is nothing to it. -/
@[simp] theorem run_holding (m : Moment) (x : η) (t : τ) :
    (holding x : Process τ ν η Unit).run m t = some (t, ()) := rfl

@[simp] theorem run_dropping (m : Moment) (x : η) (t : τ) :
    (dropping x : Process τ ν η Unit).run m t = some (t, ()) := rfl

@[simp] theorem run_wait (m : Moment) (ready : Moment → τ → Bool) (deadline : Option Span)
    (t : τ) : (wait ready deadline : Process τ ν η Wake).run m t =
      if ready m t then some (t, .opened) else none := rfl

/-- A process on a part of a state leaves the rest alone. -/
theorem run_within (part : τ' → τ) (put : τ → τ' → τ') (lock : ν → ν') (thing : η → η')
    (part_put : ∀ t t', part (put t t') = t) (put_put : ∀ t u t', put u (put t t') = put u t')
    (put_part : ∀ t', put (part t') t' = t') (m : Moment) (p : Process τ ν η ρ) (t' : τ') :
    (within part put lock thing p).run m t' =
      (p.run m (part t')).map fun r => (put r.1 t', r.2) := by
  induction p generalizing t' with
  | done a => simp [within, put_part]
  | step change next ih =>
    have h := ih m (part t') (put (change m (part t')) t')
    simp only [part_put, put_put] at h
    exact h
  | take l next ih => exact ih t'
  | give l next ih => exact ih t'
  | grasp x next ih => exact ih t'
  | drop x next ih => exact ih t'
  | await ready deadline next ih =>
    simp only [within, run]
    split
    · exact ih .opened t'
    · rfl

end Process

end LayeredCache
