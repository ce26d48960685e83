import LayeredCache.Cache

/-!
# Runs of a cache

A run makes calls on a cache one after the other, each at a moment of its own: nothing is assumed of
the threads, of what the clocks show, of the signals, or of what is held outside. Between two calls
others may do what they like to the ground except to the cells of the cache's own base store. A run
keeps the record of its calls, the latest one in front.

## Main definitions

* `Cache.Run` — the runs of a cache.
* `Cache.Upholds` — the operations of a cache keep a property of its states and the ground, and so
  do its runs.
-/

namespace LayeredCache.Cache

variable {κ α σ : Type}

/-- What a cache can be asked for. Values are written as new instances, told by their serial
numbers. -/
inductive Call (κ α : Type) where
  | put (k : κ) (serial : Nat) (v : α)
  | get (k : κ)
  /-- Goes on with a lookup that waits. -/
  | resume (k : κ) (gate : Nat) (w : Wake)
  | remove (k : κ)
  | clear
  | size
  | release (k : κ)

/-- What a call answers. -/
inductive Answer (κ α : Type) where
  | written (result : Written κ)
  | looked (found : Lookup κ α)
  | removed (cell : Option (Cell α))
  | counted (size : Nat)
  | nothing

/-- A call that was made: when, for what, and with which answer. -/
structure Record (κ α : Type) where
  moment : Moment
  call : Call κ α
  answer : Answer κ α

/-- Makes a call. -/
def perform (d : Cache κ α σ) (m : Moment) (s : σ) (g : Ground κ α) :
    Call κ α → Reply κ α σ (Answer κ α)
  | .put k serial v =>
    let r := d.put m k { item := ⟨serial, .plain v⟩ } s g
    ⟨r.state, r.ground, .written r.answer⟩
  | .get k =>
    let r := d.get m k s g
    ⟨r.state, r.ground, .looked r.answer⟩
  | .resume k gate w =>
    let r := d.resume m k gate w s g
    ⟨r.state, r.ground, .looked r.answer⟩
  | .remove k =>
    let r := d.remove m k s g
    ⟨r.state, r.ground, .removed r.answer⟩
  | .clear =>
    let r := d.clear m s g
    ⟨r.state, r.ground, .nothing⟩
  | .size =>
    let r := d.size m s g
    ⟨r.state, r.ground, .counted r.answer⟩
  | .release k =>
    let r := d.release m k s g
    ⟨r.state, r.ground, .nothing⟩

/-- `Run d s₀ g₀ past s g`: calls on `d` with the records `past` lead from the state `s₀` and the
ground `g₀` to `s` and `g`. -/
inductive Run (d : Cache κ α σ) (s₀ : σ) (g₀ : Ground κ α) :
    List (Record κ α) → σ → Ground κ α → Prop where
  | start : Run d s₀ g₀ [] s₀ g₀
  | call {past : List (Record κ α)} {s : σ} {g : Ground κ α} (m : Moment) (c : Call κ α) :
    Run d s₀ g₀ past s g →
      Run d s₀ g₀ (⟨m, c, (d.perform m s g c).answer⟩ :: past) (d.perform m s g c).state
        (d.perform m s g c).ground
  | elsewhere {past : List (Record κ α)} {s : σ} {g : Ground κ α} (g' : Ground κ α) :
    Run d s₀ g₀ past s g → g'.store d.base = g.store d.base → Run d s₀ g₀ past s g'

/-- Every operation of `d` keeps the property `I` of its states and the ground, and so does
everything that leaves the cells of its base store as they are. -/
structure Upholds (d : Cache κ α σ) (I : σ → Ground κ α → Prop) : Prop where
  put : ∀ m k c s g, I s g → I (d.put m k c s g).state (d.put m k c s g).ground
  get : ∀ m k s g, I s g → I (d.get m k s g).state (d.get m k s g).ground
  resume : ∀ m k gate w s g, I s g →
    I (d.resume m k gate w s g).state (d.resume m k gate w s g).ground
  remove : ∀ m k s g, I s g → I (d.remove m k s g).state (d.remove m k s g).ground
  clear : ∀ m s g, I s g → I (d.clear m s g).state (d.clear m s g).ground
  size : ∀ m s g, I s g → I (d.size m s g).state (d.size m s g).ground
  release : ∀ m k s g, I s g → I (d.release m k s g).state (d.release m k s g).ground
  elsewhere : ∀ {s g g'}, I s g → g'.store d.base = g.store d.base → I s g'

variable {d : Cache κ α σ} {I I' : σ → Ground κ α → Prop}

theorem Upholds.congr (H : d.Upholds I) (h : ∀ s g, I' s g ↔ I s g) : d.Upholds I' := by
  obtain rfl : I' = I := funext fun s => funext fun g => propext (h s g)
  exact H

theorem Upholds.and (H : d.Upholds I) (H' : d.Upholds I') :
    d.Upholds fun s g => I s g ∧ I' s g where
  put m k c s g h := ⟨H.put m k c s g h.1, H'.put m k c s g h.2⟩
  get m k s g h := ⟨H.get m k s g h.1, H'.get m k s g h.2⟩
  resume m k gate w s g h := ⟨H.resume m k gate w s g h.1, H'.resume m k gate w s g h.2⟩
  remove m k s g h := ⟨H.remove m k s g h.1, H'.remove m k s g h.2⟩
  clear m s g h := ⟨H.clear m s g h.1, H'.clear m s g h.2⟩
  size m s g h := ⟨H.size m s g h.1, H'.size m s g h.2⟩
  release m k s g h := ⟨H.release m k s g h.1, H'.release m k s g h.2⟩
  elsewhere h hg := ⟨H.elsewhere h.1 hg, H'.elsewhere h.2 hg⟩

theorem Upholds.or (H : d.Upholds I) (H' : d.Upholds I') :
    d.Upholds fun s g => I s g ∨ I' s g where
  put m k c s g h := h.imp (H.put m k c s g) (H'.put m k c s g)
  get m k s g h := h.imp (H.get m k s g) (H'.get m k s g)
  resume m k gate w s g h := h.imp (H.resume m k gate w s g) (H'.resume m k gate w s g)
  remove m k s g h := h.imp (H.remove m k s g) (H'.remove m k s g)
  clear m s g h := h.imp (H.clear m s g) (H'.clear m s g)
  size m s g h := h.imp (H.size m s g) (H'.size m s g)
  release m k s g h := h.imp (H.release m k s g) (H'.release m k s g)
  elsewhere h hg := h.imp (H.elsewhere · hg) (H'.elsewhere · hg)

theorem upholds_forall {ι : Type} {J : ι → σ → Ground κ α → Prop} (H : ∀ i, d.Upholds (J i)) :
    d.Upholds fun s g => ∀ i, J i s g where
  put m k c s g h i := (H i).put m k c s g (h i)
  get m k s g h i := (H i).get m k s g (h i)
  resume m k gate w s g h i := (H i).resume m k gate w s g (h i)
  remove m k s g h i := (H i).remove m k s g (h i)
  clear m s g h i := (H i).clear m s g (h i)
  size m s g h i := (H i).size m s g (h i)
  release m k s g h i := (H i).release m k s g (h i)
  elsewhere h hg i := (H i).elsewhere (h i) hg

/-- What no state has is kept. -/
theorem upholds_false (d : Cache κ α σ) : d.Upholds fun _ _ => False := by
  constructor <;> intros <;> assumption

theorem Upholds.perform (H : d.Upholds I) (m : Moment) {s : σ} {g : Ground κ α}
    (c : Call κ α) (hs : I s g) : I (d.perform m s g c).state (d.perform m s g c).ground := by
  cases c with
  | put k serial v => exact H.put _ _ _ _ _ hs
  | get k => exact H.get _ _ _ _ hs
  | resume k gate w => exact H.resume _ _ _ _ _ _ hs
  | remove k => exact H.remove _ _ _ _ hs
  | clear => exact H.clear _ _ _ hs
  | size => exact H.size _ _ _ hs
  | release k => exact H.release _ _ _ _ hs

theorem Run.upholds (H : d.Upholds I) {s₀ s : σ} {g₀ g : Ground κ α}
    {past : List (Record κ α)} (hrun : d.Run s₀ g₀ past s g) (h₀ : I s₀ g₀) : I s g := by
  induction hrun with
  | start => exact h₀
  | call m c _ ih => exact H.perform m c ih
  | elsewhere g' _ hg ih => exact H.elsewhere ih hg

end LayeredCache.Cache
