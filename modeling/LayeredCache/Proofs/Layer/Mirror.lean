import LayeredCache.Proofs.Layer.Contents
import LayeredCache.Proofs.Transaction.Latches
import Mathlib.Data.List.Forall2

/-!
# Layers that cannot be told to be there

Two caches mirror each other on one thread if the same calls, made on both in related states and
grounds, succeed on both, answer alike and lead to related states and grounds again. A layer that
bounds what lies below it does the same over caches that mirror each other. A layer that counts,
excludes or latches can be left out on one side: on one thread no lookup meets a foreign latch. So
can a window that has not run out, and a layer that keeps bytes if values are read from their bytes
as they were.

The grounds differ in their journals at least; what else they may differ in is a parameter.

## Main definitions

* `Moment.Calm` — a moment of the thread at which no window has run out.
* `Cache.Mirrors` — the relation above, for given relations of cells, grounds and states.
* `Ground.Quiet` — a relation of grounds that does not look at journals.
-/

namespace LayeredCache

variable {κ α σ τ : Type}

/-! ## The relation -/

/-- A moment of the thread at which no window with one of the intervals has run out that was last
cleared when the clock of the machine showed `since`. -/
structure Moment.Calm (thread : String) (intervals : List Span) (since : Span) (m : Moment) :
    Prop where
  thread_eq : m.thread = thread
  fresh : ∀ i ∈ intervals, m.time .system - since ≤ i

/-- A relation of grounds that does not look at their journals. -/
structure Ground.Quiet (G : Ground κ α → Ground κ α → Prop) : Prop where
  note_left : ∀ {g g'}, G g g' → ∀ e, G (g.note e) g'
  note_right : ∀ {g g'}, G g g' → ∀ e, G g (g'.note e)

/-- Both writes have succeeded. -/
def Succeed (a a' : Written κ) : Prop := a = .ok () ∧ a' = .ok ()

/-- Both lookups are finished, and have found related cells or nothing. -/
def Find (C : Cell α → Cell α → Prop) (a a' : Lookup κ α) : Prop :=
  ∃ found found', a = .done (.ok found) ∧ a' = .done (.ok found') ∧ Option.Rel C found found'

/-- Two replies with related states, grounds and answers. -/
structure Reply.Mirrors {ρ : Type} (G : Ground κ α → Ground κ α → Prop) (S : σ → τ → Prop)
    (A : ρ → ρ → Prop) (r : Reply κ α σ ρ) (r' : Reply κ α τ ρ) : Prop where
  answer : A r.answer r'.answer
  ground : G r.ground r'.ground
  state : S r.state r'.state

/-- The caches `d` and `d'` mirror each other on a thread while no window runs out: `C` relates what
is written to them and found in them, `G` the grounds, and `R t` the states after a last clear
when the clock of the machine showed `t`. -/
structure Cache.Mirrors (d : Cache κ α σ) (d' : Cache κ α τ) (thread : String)
    (intervals : List Span) (C : Cell α → Cell α → Prop) (G : Ground κ α → Ground κ α → Prop)
    (R : Span → σ → τ → Prop) : Prop where
  put : ∀ {t m k c c' s s' g g'}, m.Calm thread intervals t → C c c' → R t s s' →
    G g g' → (d.put m k c s g).Mirrors G (R t) Succeed (d'.put m k c' s' g')
  get : ∀ {t m k s s' g g'}, m.Calm thread intervals t → R t s s' → G g g' →
    (d.get m k s g).Mirrors G (R t) (Find C) (d'.get m k s' g')
  remove : ∀ {t m k s s' g g'}, m.Calm thread intervals t → R t s s' → G g g' →
    (d.remove m k s g).Mirrors G (R t) (Option.Rel C) (d'.remove m k s' g')
  clear : ∀ {t m s s' g g'}, R t s s' → G g g' →
    (d.clear m s g).Mirrors G (R (m.time .system)) (fun _ _ => True) (d'.clear m s' g')
  size : ∀ {t m s s' g g'}, m.Calm thread intervals t → R t s s' → G g g' →
    (d.size m s g).Mirrors G (R t) Eq (d'.size m s' g')
  release : ∀ {t m k s s' g g'}, R t s s' → G g g' →
    (d.release m k s g).Mirrors G (R t) (fun _ _ => True) (d'.release m k s' g')

section Layers

variable {d : Cache κ α σ} {d' : Cache κ α τ} {thread : String} {intervals : List Span}
  {C : Cell α → Cell α → Prop} {G : Ground κ α → Ground κ α → Prop} {R : Span → σ → τ → Prop}

theorem eq_of_rel {β : Type} {r : β → β → Prop} {x y : Option β} (h : Option.Rel r x y) :
    (x = none ∧ y = none) ∨ ∃ b b', x = some b ∧ y = some b' ∧ r b b' := by
  cases h with
  | none => exact .inl ⟨rfl, rfl⟩
  | some h => exact .inr ⟨_, _, rfl, rfl, h⟩

theorem rel_mono {β : Type} {r r' : β → β → Prop} (hr : ∀ b b', r b b' → r' b b')
    {x y : Option β} (h : Option.Rel r x y) : Option.Rel r' x y := by
  cases h with
  | none => exact .none
  | some h => exact .some (hr _ _ h)

/-! ## Layers that stay -/

/-- A layer that hands a call on keeps its own state beside that of the layers below. -/
theorem Reply.Mirrors.beside {ρ β : Type} {S : σ → τ → Prop} {A : ρ → ρ → Prop}
    {r : Reply κ α σ ρ} {r' : Reply κ α τ ρ} (h : r.Mirrors G S A r') (x : β) :
    Reply.Mirrors G (fun s s' => s.1 = s'.1 ∧ S s.2 s'.2) A
      (⟨(x, r.state), r.ground, r.answer⟩ : Reply κ α (β × σ) ρ)
      (⟨(x, r'.state), r'.ground, r'.answer⟩ : Reply κ α (β × τ) ρ) :=
  ⟨h.answer, h.ground, rfl, h.state⟩

/-- Both sides evict the same keys. -/
theorem Recency.mirrors [DecidableEq κ] (hG : Ground.Quiet G)
    (H : d.Mirrors d' thread intervals C G R) :
    (Recency.onto d).Mirrors (Recency.onto d') thread intervals C G
      fun since s s' => s.1 = s'.1 ∧ R since s.2 s'.2 where
  put := by
    rintro since m k c c' ⟨r, s⟩ ⟨_, s'⟩ g g' hm hc ⟨rfl, hs⟩ hg
    obtain ⟨⟨ha, ha'⟩, hg, hs⟩ := H.put (k := k) hm hc hs hg
    simp only [onto, ha, ha']
    rcases (r.touch k).evictEldest with ⟨index, _ | eldest⟩
    · exact ⟨⟨rfl, rfl⟩, hg, rfl, hs⟩
    · have hremove := H.remove (k := eldest) hm hs
        (hG.note_right (hG.note_left hg (.evicting .lru d.id eldest)) (.evicting .lru d'.id eldest))
      exact ⟨⟨rfl, rfl⟩, hremove.ground, rfl, hremove.state⟩
  get := by
    rintro since m k ⟨r, s⟩ ⟨_, s'⟩ g g' hm ⟨rfl, hs⟩ hg
    exact (H.get hm hs hg).beside _
  remove := by
    rintro since m k ⟨r, s⟩ ⟨_, s'⟩ g g' hm ⟨rfl, hs⟩ hg
    exact (H.remove hm hs hg).beside _
  clear := by
    rintro since m ⟨r, s⟩ ⟨_, s'⟩ g g' ⟨rfl, hs⟩ hg
    exact (H.clear hs hg).beside _
  size := by
    rintro since m ⟨r, s⟩ ⟨_, s'⟩ g g' hm ⟨rfl, hs⟩ hg
    exact (H.size hm hs hg).beside _
  release := by
    rintro since m k ⟨r, s⟩ ⟨_, s'⟩ g g' ⟨rfl, hs⟩ hg
    exact (H.release hs hg).beside _

/-- Both sides give up the same keys. -/
theorem WriteQueue.mirrors (hG : Ground.Quiet G) (H : d.Mirrors d' thread intervals C G R) :
    (WriteQueue.onto d).Mirrors (WriteQueue.onto d') thread intervals C G
      fun since s s' => s.1 = s'.1 ∧ R since s.2 s'.2 where
  put := by
    rintro since m k c c' ⟨q, s⟩ ⟨_, s'⟩ g g' hm hc ⟨rfl, hs⟩ hg
    simp only [onto]
    rcases q.cycle k with ⟨queue, _ | oldest⟩
    · exact (H.put hm hc hs hg).beside _
    · have hremove := H.remove (k := oldest) hm hs
        (hG.note_right (hG.note_left hg (.evicting .fifo d.id oldest))
          (.evicting .fifo d'.id oldest))
      exact (H.put hm hc hremove.state hremove.ground).beside _
  get := by
    rintro since m k ⟨q, s⟩ ⟨_, s'⟩ g g' hm ⟨rfl, hs⟩ hg
    exact (H.get hm hs hg).beside _
  remove := by
    rintro since m k ⟨q, s⟩ ⟨_, s'⟩ g g' hm ⟨rfl, hs⟩ hg
    exact (H.remove hm hs hg).beside _
  clear := by
    rintro since m ⟨q, s⟩ ⟨_, s'⟩ g g' ⟨rfl, hs⟩ hg
    exact (H.clear hs hg).beside _
  size := by
    rintro since m ⟨q, s⟩ ⟨_, s'⟩ g g' hm ⟨rfl, hs⟩ hg
    exact (H.size hm hs hg).beside _
  release := by
    rintro since m k ⟨q, s⟩ ⟨_, s'⟩ g g' ⟨rfl, hs⟩ hg
    exact (H.release hs hg).beside _

/-! ## Layers that can be left out -/

/-- A layer that hands a call on can be left out on one side. -/
theorem Reply.Mirrors.above {ρ β : Type} {S : σ → τ → Prop} {A : ρ → ρ → Prop}
    {r : Reply κ α σ ρ} {r' : Reply κ α τ ρ} (h : r.Mirrors G S A r') {I : β → Prop} {x : β}
    (hx : I x) :
    Reply.Mirrors G (fun s s' => I s.1 ∧ S s.2 s') A
      (⟨(x, r.state), r.ground, r.answer⟩ : Reply κ α (β × σ) ρ) r' :=
  ⟨h.answer, h.ground, hx, h.state⟩

theorem Reply.Mirrors.over {ρ β : Type} {S : σ → τ → Prop} {A : ρ → ρ → Prop}
    {r : Reply κ α σ ρ} {r' : Reply κ α τ ρ} (h : r.Mirrors G S A r') (x : β) :
    Reply.Mirrors G (fun s s' => S s.2 s') A
      (⟨(x, r.state), r.ground, r.answer⟩ : Reply κ α (β × σ) ρ) r' :=
  ⟨h.answer, h.ground, h.state⟩

theorem HitCount.mirrors (hG : Ground.Quiet G) (H : d.Mirrors d' thread intervals C G R) :
    (HitCount.onto d).Mirrors d' thread intervals C G fun since s s' => R since s.2 s' where
  put hm hc hs hg := (H.put hm hc hs hg).over _
  get := by
    rintro since m k ⟨count, s⟩ s' g g' hm hs hg
    obtain ⟨⟨found, found', ha, ha', hfound⟩, hg, hs⟩ := H.get (k := k) hm hs hg
    simp only [onto, settle, ha]
    exact ⟨⟨found, found', rfl, ha', hfound⟩, hG.note_left hg _, hs⟩
  remove hm hs hg := (H.remove hm hs hg).over _
  clear hs hg := (H.clear hs hg).over _
  size hm hs hg := (H.size hm hs hg).over _
  release hs hg := (H.release hs hg).over _

theorem Passing.mirrors (H : d.Mirrors d' thread intervals C G R) :
    (Passing.onto d).Mirrors d' thread intervals C G fun since s s' => R since s.2 s' where
  put hm hc hs hg := (H.put hm hc hs hg).over _
  get hm hs hg := (H.get hm hs hg).over _
  remove hm hs hg := (H.remove hm hs hg).over _
  clear hs hg := (H.clear hs hg).over _
  size hm hs hg := (H.size hm hs hg).over _
  release hs hg := (H.release hs hg).over _

/-- All latches are those of one thread. -/
def Gate.IsOwnedBy [DecidableEq κ] (thread : String) (t : Gate κ) : Prop :=
  ∀ k owner, t.owner? k = some owner → owner = thread

theorem Gate.IsOwnedBy.unlatch [DecidableEq κ] {t : Gate κ} (h : t.IsOwnedBy thread) (k : κ) :
    (t.unlatch k).IsOwnedBy thread := by
  intro k' owner howner
  rw [owner?_unlatch] at howner
  split at howner
  · cases howner
  · exact h k' owner howner

/-- A thread meets no latches but its own. -/
theorem Gate.mirrors [DecidableEq κ] (H : d.Mirrors d' thread intervals C G R) :
    (Gate.onto d).Mirrors d' thread intervals C G
      fun since s s' => s.1.IsOwnedBy thread ∧ R since s.2 s' where
  put hm hc hs hg := (H.put hm hc hs.2 hg).above (hs.1.unlatch _)
  get := by
    rintro since m k s s' g g' hm ⟨hown, hs⟩ hg
    obtain ⟨t, ht, hget⟩ := get_passes (d := d) (g := g) (s := s)
      fun owner howner => (hown k owner howner).trans hm.thread_eq.symm
    have hlatched : t.IsOwnedBy thread := by
      intro k' owner howner
      rw [ht k'] at howner
      split at howner
      · exact (Option.some.inj howner).symm.trans hm.thread_eq
      · exact hown k' owner howner
    obtain ⟨⟨found, found', ha, ha', hfound⟩, hg, hs⟩ := H.get (k := k) hm hs hg
    rw [hget]
    simp only [settle, ha]
    cases hfound with
    | none => exact ⟨⟨_, _, rfl, ha', .none⟩, hg, hlatched, hs⟩
    | some hcell => exact ⟨⟨_, _, rfl, ha', .some hcell⟩, hg, hlatched.unlatch k, hs⟩
  remove hm hs hg := (H.remove hm hs.2 hg).above (hs.1.unlatch _)
  clear hs hg := (H.clear hs.2 hg).above hs.1
  size hm hs hg := (H.size hm hs.2 hg).above hs.1
  release hs hg := (H.release hs.2 hg).above (hs.1.unlatch _)

/-- A window on the clock of the machine with one of the intervals, last cleared at a time. -/
structure Window.IsOpen (intervals : List Span) (since : Span) (w : Window) : Prop where
  clock : w.clock = .system
  interval : w.interval ∈ intervals
  lastClear : w.lastClear = since

theorem Window.IsOpen.settle_eq {since : Span} {m : Moment} {s : Window × σ} {g : Ground κ α}
    (h : s.1.IsOpen intervals since) (hm : m.Calm thread intervals since) :
    settle d m s g = ⟨s, g, false⟩ := by
  have hle := hm.fresh _ h.interval
  have hfresh : s.1.stale (m.time s.1.clock) = false := by
    rw [stale, h.clock, h.lastClear]
    exact decide_eq_false (Nat.not_lt.mpr hle)
  exact if_neg (by simp [hfresh])

/-- A window that has not run out does nothing. -/
theorem Window.mirrors (H : d.Mirrors d' thread intervals C G R) :
    (Window.onto d).Mirrors d' thread intervals C G
      fun since s s' => s.1.IsOpen intervals since ∧ R since s.2 s' where
  put hm hc hs hg := by
    simp only [onto, hs.1.settle_eq hm]
    exact (H.put hm hc hs.2 hg).above hs.1
  get hm hs hg := by
    simp only [onto, hs.1.settle_eq hm]
    exact (H.get hm hs.2 hg).above hs.1
  remove hm hs hg := by
    simp only [onto, hs.1.settle_eq hm]
    exact (H.remove hm hs.2 hg).above hs.1
  clear hs hg := by
    refine (H.clear hs.2 hg).above ⟨hs.1.clock, hs.1.interval, ?_⟩
    simp only [renew, hs.1.clock]
  size hm hs hg := by
    simp only [onto, hs.1.settle_eq hm]
    exact (H.size hm hs.2 hg).above hs.1
  release hs hg := (H.release hs.2 hg).above hs.1

/-! ## Layers that keep bytes -/

section Codec

variable [Codec α]

/-- A value that becomes bytes and is read from them as it was. -/
def Packable (v : α) : Prop := ∃ bytes, Codec.encode v = .ok bytes ∧ Codec.decode bytes = .ok v

variable {P : α → Prop}

omit [Codec α] in
/-- Two cells hold the same value, and it has the property. -/
def Cell.Alike (P : α → Prop) (c c' : Cell α) : Prop :=
  ∃ v, P v ∧ c.item.content = .plain v ∧ c'.item.content = .plain v

/-- A cell holds the bytes of the value that another one holds, and it has the property. -/
def Cell.Unpacks (P : α → Prop) (c c' : Cell α) : Prop :=
  ∃ v bytes, P v ∧ Codec.encode v = .ok bytes ∧ Codec.decode bytes = .ok v ∧
    c.item.content = .packed bytes ∧ c'.item.content = .plain v

/-- One cell, and its content has the property. -/
def Cell.Same (Q : Content α → Prop) (c c' : Cell α) : Prop := c' = c ∧ Q c.item.content

/-- The content is a value with the property. -/
def Content.IsPlain (P : α → Prop) (x : Content α) : Prop := ∃ v, P v ∧ x = .plain v

/-- The content is the bytes of a value with the property. -/
def Content.IsPacked (P : α → Prop) (x : Content α) : Prop :=
  ∃ v bytes, P v ∧ Codec.encode v = .ok bytes ∧ Codec.decode bytes = .ok v ∧ x = .packed bytes

theorem Packing.unpack_packed {c : Cell α} {v : α} {bytes : List UInt8}
    (hdecode : Codec.decode (α := α) bytes = .ok v) (hc : c.item.content = .packed bytes)
    (g : Ground κ α) : unpack c g = (g.issue, .ok { item := ⟨g.issued, .plain v⟩ }) := by
  simp only [unpack, hc, hdecode]

/-- Where values are read from their bytes as they were, bytes need not be kept. -/
theorem Packing.mirrors (hP : ∀ v, P v → Packable v) (hG : ∀ {g g'}, G g g' → G g.issue g')
    (H : d.Mirrors d' thread intervals (Cell.Unpacks P) G R) :
    (Packing.onto d).Mirrors d' thread intervals (Cell.Alike P) G
      fun since s s' => R since s.2 s' where
  put := by
    rintro since m k c c' s s' g g' hm ⟨v, hv, hc, hc'⟩ hs hg
    obtain ⟨bytes, hencode, hdecode⟩ := hP v hv
    have hpack : pack c.item.content = .ok bytes := by rw [hc, pack, hencode]
    simp only [onto, hpack]
    exact (H.put hm ⟨v, bytes, hv, hencode, hdecode, rfl, hc'⟩ hs (hG hg)).over _
  get := by
    rintro since m k s s' g g' hm hs hg
    obtain ⟨⟨found, found', ha, ha', hfound⟩, hg, hs⟩ := H.get (k := k) hm hs hg
    cases hfound with
    | none =>
      simp only [onto, settle, ha]
      exact ⟨⟨_, _, rfl, ha', .none⟩, hg, hs⟩
    | some hcell =>
      obtain ⟨v, bytes, hv, -, hdecode, hc, hc'⟩ := hcell
      simp only [onto, settle, ha, unpack_packed hdecode hc]
      exact ⟨⟨_, _, rfl, ha', .some ⟨v, hv, rfl, hc'⟩⟩, hG hg, hs⟩
  remove := by
    rintro since m k s s' g g' hm hs hg
    obtain ⟨hcells, hground, hstate⟩ := H.remove (k := k) hm hs hg
    rcases eq_of_rel hcells with ⟨ha, ha'⟩ | ⟨c, c', ha, ha', hcell⟩
    · simp only [onto, ha]
      refine ⟨?_, hground, hstate⟩
      rw [ha']
      exact .none
    · obtain ⟨v, bytes, hv, -, hdecode, hc, hc'⟩ := hcell
      simp only [onto, ha, unpack_packed hdecode hc]
      refine ⟨?_, hG hground, hstate⟩
      rw [ha']
      exact .some ⟨v, hv, rfl, hc'⟩
  clear hs hg := (H.clear hs hg).over _
  size hm hs hg := (H.size hm hs hg).over _
  release hs hg := (H.release hs hg).over _

/-- Where both sides keep bytes and number instances alike, they make the same instances. -/
theorem Packing.mirrors_both (hP : ∀ v, P v → Packable v)
    (hG : ∀ {g g'}, G g g' → g'.issued = g.issued ∧ G g.issue g'.issue)
    (H : d.Mirrors d' thread intervals (Cell.Same (Content.IsPacked P)) G R) :
    (Packing.onto d).Mirrors (Packing.onto d') thread intervals (Cell.Same (Content.IsPlain P)) G
      fun since s s' => s.1 = s'.1 ∧ R since s.2 s'.2 where
  put := by
    rintro since m k _ c s s' g g' hm ⟨rfl, v, hv, hc⟩ ⟨-, hs⟩ hg
    obtain ⟨bytes, hencode, hdecode⟩ := hP v hv
    have hpack : pack c.item.content = .ok bytes := by rw [hc, pack, hencode]
    obtain ⟨hissued, hissue⟩ := hG hg
    simp only [onto, hpack, hissued]
    have hcell : Cell.Same (Content.IsPacked P)
        ({ item := ⟨g.issued, .packed bytes⟩ } : Cell α) { item := ⟨g.issued, .packed bytes⟩ } :=
      ⟨rfl, v, bytes, hv, hencode, hdecode, rfl⟩
    have hput := H.put (k := k) hm hcell hs hissue
    exact ⟨hput.answer, hput.ground, trivial, hput.state⟩
  get := by
    rintro since m k s s' g g' hm ⟨-, hs⟩ hg
    obtain ⟨⟨found, found', ha, ha', hfound⟩, hg, hs⟩ := H.get (k := k) hm hs hg
    rcases eq_of_rel hfound with ⟨rfl, rfl⟩ | ⟨_, c, rfl, rfl, rfl, v, bytes, hv, -, hdecode, hc⟩
    · simp only [onto, settle, ha, ha']
      exact ⟨⟨_, _, rfl, rfl, .none⟩, hg, trivial, hs⟩
    · obtain ⟨hissued, hissue⟩ := hG hg
      simp only [onto, settle, ha, ha', unpack_packed hdecode hc, hissued]
      exact ⟨⟨_, _, rfl, rfl, .some ⟨rfl, v, hv, rfl⟩⟩, hissue, trivial, hs⟩
  remove := by
    rintro since m k s s' g g' hm ⟨-, hs⟩ hg
    obtain ⟨hcells, hground, hstate⟩ := H.remove (k := k) hm hs hg
    rcases eq_of_rel hcells with ⟨ha, ha'⟩ | ⟨_, c, ha, ha', rfl, v, bytes, hv, -, hdecode, hc⟩
    · simp only [onto, ha, ha']
      exact ⟨.none, hground, trivial, hstate⟩
    · obtain ⟨hissued, hissue⟩ := hG hground
      simp only [onto, ha, ha', unpack_packed hdecode hc, hissued]
      exact ⟨.some ⟨rfl, v, hv, rfl⟩, hissue, trivial, hstate⟩
  clear hs hg := (H.clear hs.2 hg).beside _
  size hm hs hg := (H.size hm hs.2 hg).beside _
  release hs hg := (H.release hs.2 hg).beside _

end Codec

/-! ## The base store -/

section Base

variable [DecidableEq κ]

/-- Two tables hold the same keys in the same order, with related values. -/
def Table.Matches {β : Type} (C : β → β → Prop) (t t' : Table κ β) : Prop :=
  List.Forall₂ (fun e e' => e.1 = e'.1 ∧ C e.2 e'.2) t.entries t'.entries

namespace Table.Matches

variable {β : Type} {D : β → β → Prop} {t t' : Table κ β}

theorem find? (h : t.Matches D t') (k : κ) : Option.Rel D (t.find? k) (t'.find? k) := by
  obtain ⟨entries⟩ := t
  obtain ⟨entries'⟩ := t'
  simp only [Matches] at h
  simp only [Table.find?]
  induction h with
  | nil => exact .none
  | @cons e e' rest rest' he _ ih =>
    rw [lookup, lookup, ← he.1]
    split
    · exact .some he.2
    · exact ih

omit [DecidableEq κ] in
theorem size_eq (h : t.Matches D t') : t.size = t'.size := List.Forall₂.length_eq h

theorem erase (h : t.Matches D t') (k : κ) : (t.erase k).Matches D (t'.erase k) := by
  refine List.rel_filter ?_ h
  intro e e' he
  simp only [he.1]

theorem insert (h : t.Matches D t') (k : κ) {b b' : β} (hb : D b b') :
    (t.insert k b).Matches D (t'.insert k b') := .cons ⟨rfl, hb⟩ (h.erase k)

end Table.Matches

/-- Base stores that hold related cells mirror each other. -/
theorem Cache.mirrors_bare (id : String) (base : Nat) :
    (Cache.bare id base : Cache κ α Unit).Mirrors (Cache.bare id base) thread intervals C
      (fun g g' => (g.store base).Matches C (g'.store base))
      (fun _ _ _ => True : Span → Unit → Unit → Prop) where
  put := by
    rintro since m k c c' s s' g g' - hc - hg
    refine ⟨⟨rfl, rfl⟩, ?_, trivial⟩
    simpa [bare] using hg.insert k hc
  get := by
    rintro since m k s s' g g' - - hg
    exact ⟨⟨_, _, rfl, rfl, hg.find? k⟩, hg, trivial⟩
  remove := by
    rintro since m k s s' g g' - - hg
    have hfind := hg.find? k
    rcases eq_of_rel hfind with ⟨hf, hf'⟩ | ⟨c, c', hf, hf', hcell⟩
    · simp only [bare, hf, hf']
      exact ⟨.none, hg, trivial⟩
    · simp only [bare, hf, hf']
      refine ⟨.some hcell, ?_, trivial⟩
      simpa using hg.erase k
  clear := by
    rintro since m s s' g g' - hg
    refine ⟨trivial, ?_, trivial⟩
    simp only [bare, Ground.store_setStore_self]
    exact .nil
  size := by
    rintro since m s s' g g' - - hg
    exact ⟨hg.size_eq, hg, trivial⟩
  release hs hg := ⟨trivial, hg, trivial⟩

omit [DecidableEq κ] in
theorem Ground.quiet_matches (base : Nat) :
    Ground.Quiet fun g g' : Ground κ α => (g.store base).Matches C (g'.store base) :=
  ⟨fun h _ => h, fun h _ => h⟩

end Base

end Layers

end LayeredCache
