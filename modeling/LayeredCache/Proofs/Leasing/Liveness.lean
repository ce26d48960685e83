import LayeredCache.Proofs.Leasing.Acts
import LayeredCache.Proofs.Leasing.Writes

/-!
# A reclaiming layer finds what is held

A lookup finds the instance of the last write of its key, and that very instance, if and only if the
key was neither removed nor cleared since and somebody still holds the instance once the collection
at the beginning of the lookup is done. The account of the history stays true call by call, from
which this follows for every run.

## Main statements

* `Leasing.Run.describes` — the account of a history is true after every run.
* `Leasing.Run.get_finds_iff_held` — what a lookup finds.
-/

namespace LayeredCache.Leasing

variable {κ α : Type} [DecidableEq κ]

/-- What a history says. -/
def account (r : Retention) (past : List (Act κ α)) : Account κ α :=
  ⟨fun k => current? r k past, hits past, raised past, operations past⟩

/-- The account after an act. -/
def Account.after (r : Retention) (a : Account κ α) : Act κ α → Account κ α
  | .put k item => (a.observe r).put k item
  | .get _ found => (a.observe r).get found
  | .remove k => (a.observe r).remove k
  | .clear => a.clear
  | .size | .purge => a.observe r
  | .collect => a.collectIf true
  | .raise => { a with raised := true }
  | .outside => a

theorem account_cons (r : Retention) (act : Act κ α) (past : List (Act κ α)) :
    account r (act :: past) = (account r past).after r act := by
  cases act with
  | get k found => cases found <;> rfl
  | raise => exact congrArg (fun a => { a with raised := true }) (account r past).collectIf_false
  | outside => exact (account r past).collectIf_false
  | remove k | put k item | clear | size | purge | collect => rfl

variable {base bound : Nat} {r : Retention} {a : Account κ α} {w : World κ α}

/-! ## Calls -/

/-- A lookup after what it does first: it finds the cell of its key, if there is one. -/
theorem Describes.get_eq (H : Describes base bound r a w) (id : String) (k : κ) :
    ((w.purge id base).cell? base k = none ∧
      (onBare id base).get w.moment k w.state w.ground =
        ⟨(w.purge id base).state, (w.purge id base).ground, .done (.ok none)⟩) ∨
    ∃ c, (w.purge id base).cell? base k = some c ∧
      (w.purge id base).isAlive c.item.serial = true ∧
      (onBare id base).get w.moment k w.state w.ground =
        ⟨((w.purge id base).state.1.remember c.item.serial, ()), (w.purge id base).ground,
          .done (.ok (some { item := c.item }))⟩ := by
  have hget : (onBare id base).get w.moment k w.state w.ground =
      settle (Cache.bare id base) w.moment k (w.purge id base).state.1
        ⟨(), (w.purge id base).ground, .done (.ok ((w.purge id base).cell? base k))⟩ := by
    simp only [onBare, onto, World.purge, World.cell?, Cache.bare]
  have hmoment : (w.purge id base).moment = w.moment := rfl
  have hcells := (H.purge id).2.1
  rw [hget]
  generalize w.purge id base = p at hmoment hcells ⊢
  cases hc : p.cell? base k with
  | none => exact .inl ⟨rfl, rfl⟩
  | some c =>
    have halive := hcells k c hc
    have hreaches : p.state.1.reaches w.moment p.ground c = true := by
      rw [reaches, Bool.or_eq_true, ← hmoment]
      exact .inr halive
    refine .inr ⟨c, rfl, halive, ?_⟩
    simp only [settle, hreaches, if_true]

omit [DecidableEq κ] in
@[simp] theorem holding_nil (m : Moment) : m.holding [] = m := by simp [Moment.holding]

/-- A removal after what it does first: it hands out what is alive and drops the cell. -/
theorem Describes.remove_eq (H : Describes base bound r a w) (id : String) (k : κ) :
    ∃ serials, (∀ n ∈ serials, (w.purge id base).isAlive n = true) ∧
      ((Call.remove k).perform id base w).2 =
        World.drop id base
          { w.purge id base with moment := (w.purge id base).moment.holding serials } k := by
  have hstate : (Leasing.purge (Cache.bare id base) w.moment w.state w.ground).state =
      (w.purge id base).state := rfl
  have hground : (Leasing.purge (Cache.bare id base) w.moment w.state w.ground).ground =
      (w.purge id base).ground := rfl
  have hmoment : (w.purge id base).moment = w.moment := rfl
  have hcells := (H.purge id).2.1
  obtain ⟨hanswer, -⟩ := Cache.remove_bare id base w.moment k (w.purge id base).ground
  simp only [Call.perform, onBare, onto, hstate, hground]
  generalize w.purge id base = p at hmoment hcells hanswer ⊢
  obtain ⟨⟨l, ⟨⟩⟩, g, m⟩ := p
  obtain rfl : m = w.moment := hmoment
  simp only at hanswer
  simp only [hanswer, World.drop]
  cases hc : (g.store base).find? k with
  | none => exact ⟨[], by simp, rfl⟩
  | some c =>
    simp only
    split
    · refine ⟨[c.item.serial], ?_, rfl⟩
      intro n hn
      rw [List.mem_singleton.mp hn]
      exact hcells k c hc
    · exact ⟨[], by simp, rfl⟩

/-- A call keeps the account true, changed by its act. -/
theorem Describes.perform (H : Describes base bound r a w) (id : String) (c : Call κ α)
    (hfair : c.IsFair w) :
    Describes base bound r (a.after r (c.perform id base w).1) (c.perform id base w).2 := by
  have hpurge := (H.purge id).1
  cases c with
  | put k item => exact hpurge.store k item hfair
  | get k =>
    rcases H.get_eq id k with ⟨-, heq⟩ | ⟨c, -, halive, heq⟩
    · simp only [Call.perform, heq, found?, Option.toList_none, List.map_nil, holding_nil]
      exact hpurge
    · simp only [Call.perform, heq, found?]
      have hheld : ∀ n ∈ [c.item.serial], (w.purge id base).isAlive n = true := by
        intro n hn
        exact List.mem_singleton.mp hn ▸ halive
      have hholding := hpurge.holding hheld
      exact hholding.remember c.item (hholding.alive_of_outside c.item.serial (.inl (by simp)))
  | remove k =>
    obtain ⟨serials, halive, heq⟩ := H.remove_eq id k
    rw [heq]
    exact ((hpurge.holding halive).drop id k).1
  | clear => exact H.clear
  | size => exact hpurge
  | purge => exact hpurge
  | collect => exact H.collect
  | raise => exact H.raise id

/-! ## Runs -/

/-- A new layer, as it was made. -/
structure IsNew (r : Retention) (bound : Nat) (l : Leasing κ) (m : Moment) : Prop where
  retention : l.retention = r
  counted : counted r 0 = r
  seen : l.seen = m.pressure l.signal
  hardBound : l.hardBound = bound
  hardLinks : l.hardLinks = []
  registry : l.registry = .empty
  pins : l.pins = []

omit [DecidableEq κ] in
theorem isNew_initial {n : Nat} {wiring : Wiring} {l₀ : Moment → Leasing κ}
    (hl₀ : l₀ = (fun m => Layer.initial κ wiring m (.soft bound n)) ∧ r = .soft n ∨
      l₀ = (fun m => Layer.initial κ wiring m (.weak bound n)) ∧ r = .weak n 0) (m : Moment) :
    IsNew r bound (l₀ m) m := by
  rcases hl₀ with ⟨rfl, rfl⟩ | ⟨rfl, rfl⟩
  · exact ⟨rfl, rfl, rfl, rfl, rfl, rfl, rfl⟩
  · exact ⟨rfl, by simp [counted], rfl, rfl, rfl, rfl, rfl⟩

theorem Run.describes {id : String} {l₀ : Moment → Leasing κ}
    (hnew : ∀ m, IsNew r bound (l₀ m) m) {past : List (Act κ α)} (hrun : Run id base l₀ past w) :
    Describes base bound r (account r past) w := by
  induction hrun with
  | start m₀ g₀ htidy hempty hknown =>
    have hdistinct : (g₀.store base).Distinct := by
      rw [hempty]
      exact Table.distinct_empty
    have hcell : ∀ k, World.cell? base ⟨(l₀ m₀, ()), g₀, m₀⟩ k = none := by
      intro k
      simp [World.cell?, hempty]
    have hregistry := (hnew m₀).registry
    have hpins := (hnew m₀).pins
    exact {
      tidy := htidy
      distinct := hdistinct
      registry_distinct := hregistry ▸ Table.distinct_empty
      retention := (hnew m₀).retention.trans (hnew m₀).counted.symm
      seen_le := Nat.le_of_eq (hnew m₀).seen
      raised := by simp [account, Leasing.raised, (hnew m₀).seen]
      hardBound := (hnew m₀).hardBound
      hardLinks := by simp [account, hits, (hnew m₀).hardLinks]
      cell := fun k c hc => by rw [hcell] at hc; cases hc
      registered := fun k n hn => by rw [hregistry] at hn; cases hn
      pins := fun p hp => by rw [hpins] at hp; cases hp
      pins_nodup := hpins ▸ List.nodup_nil
      followed := fun _ _ k c _ _ hc => by rw [hcell] at hc; cases hc
      gone := fun k e he => by cases he
      known := by
        intro n hn
        rcases (World.isAlive_iff htidy hdistinct).mp hn with hn | hn | hn | ⟨k, c, hc, -⟩
        · rw [(hnew m₀).hardLinks] at hn
          cases hn
        · exact hknown n (.inl hn)
        · exact hknown n (.inr hn)
        · rw [hcell] at hc
          cases hc
      written := fun k e he => by cases he }
  | call c _ hfair ih =>
    rw [account_cons]
    exact ih.perform id c hfair
  | outside w' _ houtside ih =>
    rw [account_cons]
    exact ih.outside houtside

/-- After the collection that is due an instance is alive if and only if it is held. -/
theorem Describes.isAlive_attend_iff {past : List (Act κ α)}
    (H : Describes base bound r (account r past) w) (id : String) {n : Nat} :
    (w.attend id base).isAlive n = true ↔ IsHeld base bound r past w n := by
  have hpinned : (∃ k e, ((account r past).observe r).entries k = some e ∧ e.isPinned r = true ∧
        e.item.serial = n) ↔
      isDue r past = false ∧ ∃ k e, current? r k past = some e ∧ e.isPinned r = true ∧
        e.item.serial = n := by
    have hentries : ∀ k, ((account r past).observe r).entries k =
        (current? r k past).map (Entry.collectIf (isDue r past)) := fun _ => rfl
    simp only [hentries]
    cases isDue r past with
    | true =>
      refine ⟨?_, fun h => by cases h.1⟩
      rintro ⟨k, e, he, hpinned, -⟩
      obtain ⟨e', -, rfl⟩ := Option.map_eq_some_iff.mp he
      rw [Entry.isPinned_collectIf_true] at hpinned
      cases hpinned
    | false =>
      have hkept : (Entry.collectIf false : Entry α → Entry α) = fun e => e :=
        funext Entry.collectIf_false
      simp [hkept]
  rw [(H.attend id).holds_iff, hpinned, (World.attend_beside id w).keptElsewhere]
  rfl

/-- In every run of a soft or a weak layer, with any bound, over a base store: a lookup succeeds,
and it finds an instance if and only if it is that of the current entry of the key and somebody
still holds it. -/
theorem Run.get_finds_iff_held {id : String} {base bound n : Nat} {wiring : Wiring} {r : Retention}
    {l₀ : Moment → Leasing κ}
    (hl₀ : l₀ = (fun m => Layer.initial κ wiring m (.soft bound n)) ∧ r = .soft n ∨
      l₀ = (fun m => Layer.initial κ wiring m (.weak bound n)) ∧ r = .weak n 0)
    {past : List (Act κ α)} {w : World κ α} (hrun : Run id base l₀ past w) (k : κ) :
    ∃ found : Option (Item α),
      ((onBare id base).get w.moment k w.state w.ground).answer =
        .done (.ok (found.map fun i => { item := i })) ∧
      ∀ i, found = some i ↔ (current? r k past).map (·.item) = some i ∧
        IsHeld base bound r past w i.serial := by
  have H := hrun.describes (isNew_initial hl₀)
  obtain ⟨hpurge, -, hsame⟩ := H.purge id
  have hheld : ∀ i, (w.purge id base).isAlive i = true ↔ IsHeld base bound r past w i := by
    intro i
    rw [hsame, H.isAlive_attend_iff id]
  have hentry : ∀ i, (current? r k past).map (·.item) = some i →
      ∃ e, ((account r past).observe r).entries k = some e ∧ e.item = i := by
    intro i hi
    obtain ⟨e, he, rfl⟩ := Option.map_eq_some_iff.mp hi
    exact ⟨e.collectIf (isDue r past), congrArg (Option.map _) he, rfl⟩
  rcases H.get_eq id k with ⟨hc, heq⟩ | ⟨c, hc, halive, heq⟩
  · refine ⟨none, by rw [heq]; rfl, fun i => ⟨(by cases ·), ?_⟩⟩
    rintro ⟨hi, hholds⟩
    obtain ⟨e, he, rfl⟩ := hentry i hi
    have hdead := (hpurge.gone k e he hc).1
    rw [(hheld _).mpr hholds] at hdead
    cases hdead
  · refine ⟨some c.item, by rw [heq]; rfl, ?_⟩
    intro i
    obtain ⟨-, e, -, -, he, hitem⟩ := hpurge.cell k c hc
    have hcurrent : (current? r k past).map (·.item) = some c.item := by
      obtain ⟨e', he', rfl⟩ := Option.map_eq_some_iff.mp
        (show (current? r k past).map (Entry.collectIf (isDue r past)) = some e from he)
      rw [he', ← hitem]
      rfl
    rw [hcurrent]
    constructor
    · intro hi
      refine ⟨hi, ?_⟩
      cases hi
      exact (hheld _).mp halive
    · exact fun h => h.1

/-- A soft layer that remembers nothing: when the caller has let the instance go, it is found as
long as the signal was not raised. -/
theorem found_until_raised :
    let l₀ : Moment → Leasing Nat := fun m => Layer.initial Nat {} m (.soft 0 1)
    let item : Item Nat := ⟨0, .plain 10⟩
    let g : Ground Nat Nat :=
      { stores := ⟨[(0, ⟨[(1, { item := item, lease := some ⟨1, true⟩ })]⟩)]⟩, issued := 2 }
    let l : Leasing Nat := { l₀ {} with registry := ⟨[(1, 1)]⟩, pins := [(1, 1)] }
    let w : World Nat Nat := ⟨(l, ()), g, {}⟩
    let w' := ((Call.raise : Call Nat Nat).perform "users" 0 w).2
    let past : List (Act Nat Nat) := [.outside, .put 1 item]
    Run "users" 0 l₀ past w ∧ Run "users" 0 l₀ (.raise :: past) w' ∧
      ((onBare "users" 0).get w.moment 1 w.state w.ground).answer =
        .done (.ok (some { item := item })) ∧
      ((onBare "users" 0).get w'.moment 1 w'.state w'.ground).answer = .done (.ok none) := by
  intro l₀ item g l w w' past
  have hoff : ∀ n, g.keptElsewhere 0 n = false := fun _ => rfl
  have hrun : Run "users" 0 l₀ past w := by
    have hstart : Run (α := Nat) "users" 0 l₀ []
        ⟨(l₀ { held := fun n => decide (n = 0) }, ()), { issued := 1 },
          { held := fun n => decide (n = 0) }⟩ := by
      refine .start _ { issued := 1 } List.nodup_nil rfl ?_
      rintro n (h | h)
      · have hn : n = 0 := of_decide_eq_true h
        exact hn ▸ Nat.one_pos
      · cases h
    have hput := Run.call (.put 1 item) hstart rfl
    refine .outside w hput ⟨rfl, List.nodup_singleton 0, rfl, Nat.le_refl _, rfl, ?_⟩
    rintro n (h | h)
    · cases h
    · rw [show w.ground = g from rfl, hoff] at h
      cases h
  have hraised : Run "users" 0 l₀ (.raise :: past) w' := .call .raise hrun trivial
  refine ⟨hrun, hraised, ?_, ?_⟩
  · obtain ⟨found, hanswer, hfound⟩ := hrun.get_finds_iff_held (.inl ⟨rfl, rfl⟩) 1
    have hheld : IsHeld 0 0 (.soft 1) past w 0 :=
      .inr (.inr (.inr ⟨rfl, 1, { item := item }, rfl, rfl, rfl⟩))
    rw [hanswer, (hfound item).mpr ⟨rfl, hheld⟩]
    rfl
  · obtain ⟨found, hanswer, hfound⟩ := hraised.get_finds_iff_held (.inl ⟨rfl, rfl⟩) 1
    rw [hanswer]
    cases found with
    | none => rfl
    | some i =>
      obtain ⟨hi, h | h | h | ⟨hdue, -⟩⟩ := (hfound i).mp rfl
      · cases h
      · rw [show w'.ground = g from rfl, hoff] at h
        cases h
      · cases h
      · cases hdue

end LayeredCache.Leasing
