import LayeredCache.Process
import Mathlib.Logic.Relation

/-!
# Processes amid others

A thread takes the steps of its process in their order, each at a moment of its own. Between any two
of them other threads may have changed the state, any number of times. Nothing is assumed of when
they come between: locks are not looked at, so what holds here holds whatever they exclude.

## Main definitions

* `Process.Ends` — a process comes to an answer while others change the state.
* `Process.MayStep` — a step that a process may come to.
* `Process.Heeds` — every step of a process respects a relation.

## Main statements

* `Process.Ends.bind`, `Process.Ends.within` — what a composed process has come to.
* `Process.ends_of_run` — an undisturbed process is a special case.
-/

namespace LayeredCache.Process

open Relation (ReflTransGen)

variable {τ τ' ν ν' η η' ρ ρ' : Type} {others : τ → τ → Prop} {thread : String}

/-- `p.Ends others thread t a t'`: from the state `t` on, the thread has taken the steps of `p` and
has come to the answer `a`, the others have made changes as `others` says, and the state is now
`t'`. A wait ends when its condition holds or, if it has a deadline, at any time. -/
def Ends (others : τ → τ → Prop) (thread : String) : Process τ ν η ρ → τ → ρ → τ → Prop
  | done b, t, a, t' => a = b ∧ ReflTransGen others t t'
  | step change next, t, a, t' => ∃ m u, m.thread = thread ∧ ReflTransGen others t u ∧
      (next m u).Ends others thread (change m u) a t'
  | take _ p, t, a, t' | give _ p, t, a, t' | grasp _ p, t, a, t' | drop _ p, t, a, t' =>
    p.Ends others thread t a t'
  | await ready deadline next, t, a, t' =>
    (∃ m u, m.thread = thread ∧ ReflTransGen others t u ∧ ready m u = true ∧
      (next .opened).Ends others thread u a t') ∨
    deadline ≠ none ∧ (next .expired).Ends others thread t a t'

/-- An undisturbed process takes all its steps at one moment and never waits. -/
theorem ends_of_run (others : τ → τ → Prop) {m : Moment} {p : Process τ ν η ρ} {t t' : τ} {a : ρ}
    (h : p.run m t = some (t', a)) : p.Ends others m.thread t a t' := by
  induction p generalizing t with
  | done b =>
    cases h
    exact ⟨rfl, .refl⟩
  | step change next ih => exact ⟨m, t, rfl, .refl, ih m t h⟩
  | take l next ih => exact ih h
  | give l next ih => exact ih h
  | grasp x next ih => exact ih h
  | drop x next ih => exact ih h
  | await ready deadline next ih =>
    rw [run] at h
    split at h
    · next hready => exact .inl ⟨m, t, rfl, .refl, hready, ih .opened h⟩
    · cases h

namespace Ends

/-- The others may do more. -/
theorem mono {others' : τ → τ → Prop} (hothers : ∀ x y, others x y → others' x y)
    {p : Process τ ν η ρ} {t t' : τ} {a : ρ} (h : p.Ends others thread t a t') :
    p.Ends others' thread t a t' := by
  induction p generalizing t with
  | done b => exact ⟨h.1, ReflTransGen.mono hothers _ _ h.2⟩
  | step change next ih =>
    obtain ⟨m, u, hm, ht, hu⟩ := h
    exact ⟨m, u, hm, ReflTransGen.mono hothers _ _ ht, ih m u hu⟩
  | take l next ih => exact ih h
  | give l next ih => exact ih h
  | grasp x next ih => exact ih h
  | drop x next ih => exact ih h
  | await ready deadline next ih =>
    rcases h with ⟨m, u, hm, ht, hready, hu⟩ | ⟨hlimit, h⟩
    · exact .inl ⟨m, u, hm, ReflTransGen.mono hothers _ _ ht, hready, ih .opened hu⟩
    · exact .inr ⟨hlimit, ih .expired h⟩

/-- The others may come first. -/
theorem elsewhere {p : Process τ ν η ρ} {t t' t'' : τ} {a : ρ} (hfirst : ReflTransGen others t t')
    (h : p.Ends others thread t' a t'') : p.Ends others thread t a t'' := by
  induction p with
  | done b => exact ⟨h.1, hfirst.trans h.2⟩
  | step change next _ =>
    obtain ⟨m, u, hm, ht, hu⟩ := h
    exact ⟨m, u, hm, hfirst.trans ht, hu⟩
  | take l next ih => exact ih h
  | give l next ih => exact ih h
  | grasp x next ih => exact ih h
  | drop x next ih => exact ih h
  | await ready deadline next ih =>
    rcases h with ⟨m, u, hm, ht, hu⟩ | ⟨hlimit, h⟩
    · exact .inl ⟨m, u, hm, hfirst.trans ht, hu⟩
    · exact .inr ⟨hlimit, ih .expired h⟩

/-- A process goes on where the one before it has ended. -/
theorem trans {p : Process τ ν η ρ} {f : ρ → Process τ ν η ρ'} {t t' t'' : τ} {b : ρ} {a : ρ'}
    (hp : p.Ends others thread t b t') (hf : (f b).Ends others thread t' a t'') :
    (p >>= f).Ends others thread t a t'' := by
  induction p generalizing t with
  | done c =>
    obtain ⟨rfl, ht⟩ := hp
    exact elsewhere ht hf
  | step change next ih =>
    obtain ⟨m, u, hm, ht, hu⟩ := hp
    exact ⟨m, u, hm, ht, ih m u hu⟩
  | take l next ih => exact ih hp
  | give l next ih => exact ih hp
  | grasp x next ih => exact ih hp
  | drop x next ih => exact ih hp
  | await ready deadline next ih =>
    rcases hp with ⟨m, u, hm, ht, hready, hu⟩ | ⟨hlimit, hp⟩
    · exact .inl ⟨m, u, hm, ht, hready, ih .opened hu⟩
    · exact .inr ⟨hlimit, ih .expired hp⟩

/-- A composed process has come to an answer of its first part, and from there to its own. -/
theorem bind {p : Process τ ν η ρ} {f : ρ → Process τ ν η ρ'} {t t' : τ} {a : ρ'}
    (h : (p >>= f).Ends others thread t a t') :
    ∃ b u, p.Ends others thread t b u ∧ (f b).Ends others thread u a t' := by
  induction p generalizing t with
  | done b => exact ⟨b, t, ⟨rfl, .refl⟩, h⟩
  | step change next ih =>
    obtain ⟨m, u, hm, ht, hu⟩ := h
    obtain ⟨b, v, hp, hf⟩ := ih m u hu
    exact ⟨b, v, ⟨m, u, hm, ht, hp⟩, hf⟩
  | take l next ih => exact ih h
  | give l next ih => exact ih h
  | grasp x next ih => exact ih h
  | drop x next ih => exact ih h
  | await ready deadline next ih =>
    rcases h with ⟨m, u, hm, ht, hready, hu⟩ | ⟨hlimit, h⟩
    · obtain ⟨b, v, hp, hf⟩ := ih .opened hu
      exact ⟨b, v, .inl ⟨m, u, hm, ht, hready, hp⟩, hf⟩
    · obtain ⟨b, v, hp, hf⟩ := ih .expired h
      exact ⟨b, v, .inr ⟨hlimit, hp⟩, hf⟩

/-- A process on a part of a state has come to its answer on that part, if what the others do to
the whole is to the part what they may do to it. A relation that the others respect, and any change
of the part alone, holds between the whole before and after. -/
theorem within {others' : τ' → τ' → Prop} (part : τ' → τ) (put : τ → τ' → τ') {lock : ν → ν'}
    {thing : η → η'} (R : τ' → τ' → Prop) (part_put : ∀ t x, part (put t x) = t)
    (hpart : ∀ x y, others' x y → others (part x) (part y)) (hrefl : ∀ x, R x x)
    (htrans : ∀ x y z, R x y → R y z → R x z) (hothers : ∀ x y, others' x y → R x y)
    (hput : ∀ t x, R x (put t x)) {p : Process τ ν η ρ} {x y : τ'} {a : ρ}
    (h : (p.within part put lock thing).Ends others' thread x a y) :
    p.Ends others thread (part x) a (part y) ∧ R x y := by
  have hmany {x y : τ'} (hxy : ReflTransGen others' x y) :
      ReflTransGen others (part x) (part y) ∧ R x y := by
    induction hxy with
    | refl => exact ⟨.refl, hrefl x⟩
    | tail _ hlast ih =>
      exact ⟨ih.1.tail (hpart _ _ hlast), htrans _ _ _ ih.2 (hothers _ _ hlast)⟩
  induction p generalizing x with
  | done b => exact ⟨⟨h.1, (hmany h.2).1⟩, (hmany h.2).2⟩
  | step change next ih =>
    obtain ⟨m, u, hm, hx, hu⟩ := h
    obtain ⟨hends, hr⟩ := ih m (part u) hu
    rw [part_put] at hends
    exact ⟨⟨m, part u, hm, (hmany hx).1, hends⟩,
      htrans _ _ _ (hmany hx).2 (htrans _ _ _ (hput _ _) hr)⟩
  | take l next ih => exact ih h
  | give l next ih => exact ih h
  | grasp x next ih => exact ih h
  | drop x next ih => exact ih h
  | await ready deadline next ih =>
    rcases h with ⟨m, u, hm, hx, hready, hu⟩ | ⟨hlimit, h⟩
    · obtain ⟨hends, hr⟩ := ih .opened hu
      exact ⟨.inl ⟨m, part u, hm, (hmany hx).1, hready, hends⟩, htrans _ _ _ (hmany hx).2 hr⟩
    · obtain ⟨hends, hr⟩ := ih .expired h
      exact ⟨.inr ⟨hlimit, hends⟩, hr⟩

end Ends

/-! ## Single steps -/

/-- A step that a process may come to, whatever it has seen before: at the moment `m` it leads from
`t` to `t'`. -/
def MayStep (m : Moment) (t t' : τ) : Process τ ν η ρ → Prop
  | done _ => False
  | step change next => t' = change m t ∨ ∃ m' u, (next m' u).MayStep m t t'
  | take _ p | give _ p | grasp _ p | drop _ p => p.MayStep m t t'
  | await _ _ next => ∃ w, (next w).MayStep m t t'

/-- Every step that a process may come to respects a relation. -/
def Heeds (R : Moment → τ → τ → Prop) (p : Process τ ν η ρ) : Prop :=
  ∀ m t t', p.MayStep m t t' → R m t t'

namespace Heeds

variable {R : Moment → τ → τ → Prop}

theorem done (a : ρ) : (done a : Process τ ν η ρ).Heeds R := nofun

theorem act {f : Moment → τ → ρ × τ} (h : ∀ m t, R m t (f m t).2) :
    (act f : Process τ ν η ρ).Heeds R := by
  rintro m t t' (rfl | ⟨m', u, hlater⟩)
  · exact h m t
  · cases hlater

theorem bind {p : Process τ ν η ρ} {f : ρ → Process τ ν η ρ'} (hp : p.Heeds R)
    (hf : ∀ a, (f a).Heeds R) : (p >>= f).Heeds R := by
  intro m t t' h
  induction p with
  | done b => exact hf b m t t' h
  | step change next ih =>
    rcases h with rfl | ⟨m', u, hlater⟩
    · exact hp m t _ (.inl rfl)
    · exact ih m' u (fun m t t' h => hp m t t' (.inr ⟨m', u, h⟩)) hlater
  | take l next ih => exact ih hp h
  | give l next ih => exact ih hp h
  | grasp x next ih => exact ih hp h
  | drop x next ih => exact ih hp h
  | await ready deadline next ih =>
    obtain ⟨w, hlater⟩ := h
    exact ih w (fun m t t' h => hp m t t' ⟨w, h⟩) hlater

theorem locked {l : ν} {p : Process τ ν η ρ} (hp : p.Heeds R) : (locked l p).Heeds R :=
  bind (f := fun a => .give l (.done a)) hp fun _ => nofun

theorem see {f : Moment → τ → ρ} (h : ∀ m t, R m t t) : (see f : Process τ ν η ρ).Heeds R :=
  act (f := fun m t => (f m t, t)) h

theorem holding {x : η} : (holding x : Process τ ν η Unit).Heeds R := nofun

theorem dropping {x : η} : (dropping x : Process τ ν η Unit).Heeds R := nofun

theorem wait {ready : Moment → τ → Bool} {deadline : Option Span} :
    (wait ready deadline : Process τ ν η Wake).Heeds R := nofun

theorem within {R' : Moment → τ' → τ' → Prop} {part : τ' → τ} {put : τ → τ' → τ'} {lock : ν → ν'}
    {thing : η → η'} (hput : ∀ m t x, R m (part x) t → R' m x (put t x)) {p : Process τ ν η ρ}
    (hp : p.Heeds R) : (p.within part put lock thing).Heeds R' := by
  intro m x y h
  induction p with
  | done b => exact h.elim
  | step change next ih =>
    rcases h with rfl | ⟨m', u, hlater⟩
    · exact hput m _ x (hp m (part x) _ (.inl rfl))
    · exact ih m' (part u) (fun m t t' h => hp m t t' (.inr ⟨m', part u, h⟩)) hlater
  | take l next ih => exact ih hp h
  | give l next ih => exact ih hp h
  | grasp x next ih => exact ih hp h
  | drop x next ih => exact ih hp h
  | await ready deadline next ih =>
    obtain ⟨w, hlater⟩ := h
    exact ih w (fun m t t' h => hp m t t' ⟨w, h⟩) hlater

end Heeds

end LayeredCache.Process
