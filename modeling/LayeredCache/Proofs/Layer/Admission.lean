import LayeredCache.Proofs.Layer.Readback
import LayeredCache.Proofs.Layer.Windows

/-!
# When a lookup finds what is stored

A lookup comes through to the base store if no window on its way has run out and no latch of another
thread is in its way. Then it finds what the base store holds under the key, if the bytes can be
read, and otherwise it finds nothing. Layers that let instances go are left out: they take away what
they find.

## Main definitions

* `Cache.Reads` — a lookup finds a content.
* `Stack.Admits` — a stack lets a lookup through to the base store.
* `Cache.Finds` — a lookup finds what is stored exactly if it is let through.

## Main statements

* `Stack.finds` — the law for stacks.
-/

namespace LayeredCache

variable {κ α σ : Type}

/-- A lookup of `k` finds the content `x`. -/
def Cache.Reads (d : Cache κ α σ) (m : Moment) (k : κ) (x : Content α) (s : σ) (g : Ground κ α) :
    Prop :=
  ∃ c, (d.get m k s g).answer = .done (.ok (some c)) ∧ c.item.content = x

variable [DecidableEq κ]

/-- A lookup finds what the base store holds and can be read, exactly if `A` holds. -/
def Cache.Finds (d : Cache κ α σ) (read : Content α → Except CodecError (Content α))
    (A : Moment → κ → σ → Prop) : Prop :=
  ∀ m k x s g, d.Reads m k x s g ↔ A m k s ∧ ∃ y, g.content d.base k = some y ∧ read y = .ok x

/-- Whether a layer of a kind and what lies below it let a lookup through. -/
def Kind.Admits (m : Moment) (k : κ) : (kind : Kind) → kind.State κ → Prop → Prop
  | .window, w, below => Window.due m w = false ∧ below
  | .latching, t, below => Gate.isFreeFor t m.thread k = true ∧ below
  | _, _, below => below

/-- Whether a stack lets a lookup through to the base store. -/
def Stack.Admits (m : Moment) (k : κ) : (kinds : List Kind) → Stack κ kinds → Prop
  | [], _ => True
  | kind :: kinds, s => kind.Admits m k s.1 (Admits m k kinds s.2)

section Layers

variable {d : Cache κ α σ} {read : Content α → Except CodecError (Content α)}
  {A : Moment → κ → σ → Prop}

theorem Cache.finds_bare (id : String) (base : Nat) :
    (Cache.bare id base : Cache κ α Unit).Finds .ok fun _ _ _ => True := by
  intro m k x s g
  simp [Cache.Reads, bare, Ground.content, and_comm]

theorem Recency.finds (H : d.Finds read A) :
    (Recency.onto d).Finds read fun m k s => A m k s.2 := fun m k x s g => H m k x s.2 g

theorem WriteQueue.finds (H : d.Finds read A) :
    (WriteQueue.onto d).Finds read fun m k s => A m k s.2 := fun m k x s g => H m k x s.2 g

theorem Passing.finds (H : d.Finds read A) :
    (Passing.onto d).Finds read fun m k s => A m k s.2 := fun m k x s g => H m k x s.2 g

theorem HitCount.finds (H : d.Finds read A) :
    (HitCount.onto d).Finds read fun m k s => A m k s.2 := by
  intro m k x s g
  have ha : ((HitCount.onto d).get m k s g).answer = (d.get m k s.2 g).answer := answer_settle ..
  rw [Cache.Reads, ha]
  exact H m k x s.2 g

/-- A window that has run out lets nothing through. -/
theorem Window.finds (H : d.Finds read A) :
    (Window.onto d).Finds read fun m k s => s.1.due m = false ∧ A m k s.2 := by
  intro m k x s g
  rw [Cache.Reads, and_assoc]
  rcases settle_cases d m s g with ⟨hdue, heq⟩ | ⟨hdue, heq⟩
  · simp only [onto, heq, hdue, true_and]
    exact H m k x s.2 g
  · simp [onto, heq, hdue]

/-- A gate lets through who owns the latch of the key, or finds none. -/
theorem Gate.finds (H : d.Finds read A) :
    (Gate.onto d).Finds read fun m k s => s.1.isFreeFor m.thread k = true ∧ A m k s.2 := by
  intro m k x s g
  have hbelow (t : Gate κ) : (∃ c, (t.settle k (d.get m k s.2 g)).answer = .done (.ok (some c)) ∧
      c.item.content = x) ↔ d.Reads m k x s.2 g := by
    simp only [answer_settle_done]
    exact Iff.rfl
  show (∃ c, (enter d m k s g).answer = .done (.ok (some c)) ∧ c.item.content = x) ↔ _
  rw [and_assoc, isFreeFor, enter]
  cases s.1.latches.find? k with
  | none =>
    simp only [hbelow, Option.all_none, true_and]
    exact H m k x s.2 g
  | some l =>
    by_cases ho : l.owner = m.thread
    · simp only [ho, if_true, hbelow, Option.all_some, decide_true, true_and]
      exact H m k x s.2 g
    · simp [ho]

section Packing

variable [Codec α]

omit [DecidableEq κ] in
/-- Decoding finds what can be decoded of what was found. -/
theorem Packing.reads_settle (r : Reply κ α σ (Lookup κ α)) (x : Content α) :
    (∃ c, (settle r).answer = .done (.ok (some c)) ∧ c.item.content = x) ↔
      ∃ z, (∃ c, r.answer = .done (.ok (some c)) ∧ c.item.content = z) ∧ opened z = .ok x := by
  constructor
  · rintro ⟨c, hc, rfl⟩
    obtain ⟨c', hc', hopened⟩ := (settle_spec r).2.1 c hc
    exact ⟨_, ⟨c', hc', rfl⟩, hopened⟩
  · rintro ⟨z, ⟨c, hc, rfl⟩, hopened⟩
    exact settle_found hc hopened

theorem Packing.finds (H : d.Finds read A) :
    (Packing.onto d).Finds (fun y => (read y).bind opened) fun m k s => A m k s.2 := by
  intro m k x s g
  have hread (y : Content α) : (read y).bind opened = .ok x ↔
      ∃ z, read y = .ok z ∧ opened z = .ok x := by
    cases read y <;> simp [Except.bind]
  refine (reads_settle (d.get m k s.2 g) x).trans ?_
  constructor
  · rintro ⟨z, hz, hopened⟩
    obtain ⟨hadmits, y, hy, hyz⟩ := (H m k z s.2 g).mp hz
    exact ⟨hadmits, y, hy, (hread y).mpr ⟨z, hyz, hopened⟩⟩
  · rintro ⟨hadmits, y, hy, hyx⟩
    obtain ⟨z, hyz, hopened⟩ := (hread y).mp hyx
    exact ⟨z, (H m k z s.2 g).mpr ⟨hadmits, y, hy, hyz⟩, hopened⟩

end Packing

end Layers

/-- A stack without layers that let instances go finds what is stored exactly if it lets the lookup
through. -/
theorem Stack.finds [Codec α] (id : String) (base : Nat) (kinds : List Kind)
    (h : .leasing ∉ kinds) :
    (Stack.cache id base kinds : Cache κ α _).Finds (read kinds) fun m k => Admits m k kinds := by
  induction kinds with
  | nil => exact Cache.finds_bare id base
  | cons kind kinds ih =>
    have H := ih fun hm => h (List.mem_cons_of_mem kind hm)
    cases kind
    case lru => exact Recency.finds H
    case fifo => exact WriteQueue.finds H
    case leasing => exact absurd List.mem_cons_self h
    case window => exact Window.finds H
    case packing => exact Packing.finds H
    case counting => exact HitCount.finds H
    case passing => exact Passing.finds H
    case latching => exact Gate.finds H

end LayeredCache
