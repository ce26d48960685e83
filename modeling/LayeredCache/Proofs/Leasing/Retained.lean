import LayeredCache.Proofs.Leasing.Liveness
import Mathlib.Data.List.Perm.Basic

/-!
# How long a soft layer retains

A soft layer that is not pressed keeps an entry pinned until as many writes have followed as its
limit says. It counts writes and not entries: a write of a key that is stored takes a place in the
queue, and the place of the entry that it replaces, or of one that was removed, is not given back.
So an entry may lose its pin while fewer entries are pinned than the limit allows. It does so
exactly if some of the last writes no longer stand.

## Main definitions

* `Leasing.World.isPinned`, `Leasing.World.pinnedBeside` — what is pinned.
* `Leasing.Act.isQuiet` — the acts that ask for no collection.

## Main statements

* `Leasing.Run.pinned_iff_followed` — which entries are pinned and found, which one a write unpins,
  and when it does so with more entries than the limit allows.
-/

namespace LayeredCache.Leasing

variable {κ α : Type}

/-- Whether an act neither asks for a collection nor raises the signal. -/
def Act.isQuiet : Act κ α → Bool
  | .collect | .raise => false
  | _ => true

/-- The number of cells of other keys whose lease is pinned. -/
def World.pinnedBeside [DecidableEq κ] (base : Nat) (k : κ) (w : World κ α) : Nat :=
  (w.ground.store base).entries.countP fun e => decide (e.1 ≠ k) && e.2.lease.any (·.pinned)

variable [DecidableEq κ]

/-- Whether the cell of a key is there and its lease is pinned. -/
def World.isPinned (base : Nat) (k : κ) (w : World κ α) : Bool :=
  (w.cell? base k).any fun c => c.lease.any (·.pinned)

/-! ## Quiet histories -/

section Quiet

variable {limit : Nat} {k k' : κ} {act : Act κ α} {past : List (Act κ α)} {e e' : Entry α}

omit [DecidableEq κ] in
theorem raised_of_quiet (hquiet : ∀ act ∈ past, act.isQuiet = true) : raised past = false := by
  induction past with
  | nil => rfl
  | cons act past ih =>
    have hraised := ih fun act h => hquiet act (List.mem_cons_of_mem _ h)
    have hact := hquiet act List.mem_cons_self
    cases act <;> simp_all [raised, Act.isQuiet]

omit [DecidableEq κ] in
theorem isDue_of_quiet (hquiet : ∀ act ∈ past, act.isQuiet = true) :
    isDue (.soft limit) past = false := by
  rw [isDue, raised_of_quiet hquiet]
  rfl

/-- A quiet act runs no collection. -/
theorem kept_of_quiet (hquiet : ∀ a ∈ act :: past, a.isQuiet = true) :
    (current? (.soft limit) k past).map (Entry.collectIf (act.collects (.soft limit) past)) =
      current? (.soft limit) k past := by
  have hcollects : act.collects (.soft limit) past = false := by
    have hact := hquiet act List.mem_cons_self
    have hdue : isDue (.soft limit) past = false :=
      isDue_of_quiet fun a h => hquiet a (List.mem_cons_of_mem _ h)
    cases act <;> simp_all [Act.collects, Act.isQuiet]
  rw [hcollects]
  cases current? (.soft limit) k past <;> simp

/-- Where the current entry of a key comes from: this write, one that is followed by this write, or
one before another act. -/
theorem current?_cases (hquiet : ∀ a ∈ act :: past, a.isQuiet = true)
    (he : current? (.soft limit) k (act :: past) = some e) :
    (∃ item, act = .put k item ∧ e = { item := item }) ∨
    (∃ k' item e', act = .put k' item ∧ k ≠ k' ∧ current? (.soft limit) k past = some e' ∧
      e = e'.follow) ∨
    (∀ k' item, act ≠ .put k' item) ∧ current? (.soft limit) k past = some e := by
  simp only [current?, kept_of_quiet hquiet] at he
  cases act with
  | put k' item =>
    simp only at he
    by_cases hk : k = k'
    · rw [if_pos hk] at he
      exact .inl ⟨item, by rw [hk], (Option.some.inj he).symm⟩
    · rw [if_neg hk] at he
      obtain ⟨e', he', rfl⟩ := Option.map_eq_some_iff.mp he
      exact .inr (.inl ⟨k', item, e', rfl, hk, he', rfl⟩)
  | remove k' =>
    simp only at he
    split at he
    · cases he
    · exact .inr (.inr ⟨fun _ _ h => (by cases h), he⟩)
  | clear => cases he
  | get | size | purge | collect | raise | outside =>
    exact .inr (.inr ⟨fun _ _ h => (by cases h), he⟩)

theorem not_collected_of_quiet (hquiet : ∀ act ∈ past, act.isQuiet = true)
    (he : current? (.soft limit) k past = some e) : e.collected = false := by
  induction past generalizing e with
  | nil => cases he
  | cons act past ih =>
    have hpast := fun a h => hquiet a (List.mem_cons_of_mem act h)
    rcases current?_cases hquiet he with ⟨item, -, rfl⟩ | ⟨k', item, e', -, -, he', rfl⟩ | ⟨-, he⟩
    · rfl
    · have hcollected : e'.collected = false := ih hpast he'
      exact hcollected
    · exact ih hpast he

/-- No two entries were followed by equally many writes. -/
theorem eq_of_followed_eq (hquiet : ∀ act ∈ past, act.isQuiet = true)
    (he : current? (.soft limit) k past = some e) (he' : current? (.soft limit) k' past = some e')
    (hfollowed : e.followed = e'.followed) : k = k' := by
  induction past generalizing e e' with
  | nil => cases he
  | cons act past ih =>
    have hpast := fun a h => hquiet a (List.mem_cons_of_mem act h)
    -- the last act is the same for both keys, so both entries come from it in the same way
    rcases current?_cases hquiet he with
      ⟨item, rfl, rfl⟩ | ⟨_, _, e₁, rfl, -, he₁, rfl⟩ | ⟨hact, he⟩ <;>
    rcases current?_cases hquiet he' with
      ⟨_, hact', rfl⟩ | ⟨_, _, e₂, hact', -, he₂, rfl⟩ | ⟨hact', he'⟩
    · cases hact'
      rfl
    · simp [Entry.follow] at hfollowed
    · exact absurd rfl (hact' _ _)
    · simp [Entry.follow] at hfollowed
    · exact ih hpast he₁ he₂ (Nat.succ.inj hfollowed)
    · exact absurd rfl (hact' _ _)
    · exact absurd hact' (hact _ _)
    · exact absurd hact' (hact _ _)
    · exact ih hpast he he' hfollowed

end Quiet

/-! ## What is pinned -/

section Pinned

variable {id : String} {base bound limit : Nat} {r : Retention} {a : Account κ α} {w : World κ α}
  {past : List (Act κ α)} {k : κ}

theorem Describes.isPinned_eq (H : Describes base bound r a w) {e : Entry α}
    (he : a.entries k = some e) : w.isPinned base k = e.isPinned r := by
  rw [World.isPinned]
  cases hc : w.cell? base k with
  | none =>
    rw [(H.gone k e he hc).2]
    rfl
  | some c =>
    obtain ⟨n, hlease, -, -⟩ := H.cell_of_entry hc he
    simp [hlease]

/-- A lookup that runs no collection finds what is pinned. -/
theorem Describes.get_of_isPinned (H : Describes base bound r a w) (id : String)
    (hdue : a.isDue r = false) {e : Entry α} (he : a.entries k = some e)
    (hpinned : e.isPinned r = true) :
    ((onBare id base).get w.moment k w.state w.ground).answer =
      .done (.ok (some { item := e.item })) := by
  have hpurge := (H.purge id).1
  have he' : (a.observe r).entries k = some e := by
    simp [Account.observe, hdue, Account.look, he]
  rcases H.get_eq id k with ⟨hc, -⟩ | ⟨c, hc, -, heq⟩
  · have hunpinned := (hpurge.gone k e he' hc).2
    rw [hpinned] at hunpinned
    cases hunpinned
  · obtain ⟨-, -, -, hitem⟩ := hpurge.cell_of_entry hc he'
    rw [heq, hitem]

/-- The entry of a key is pinned if fewer writes have followed it than the limit says. -/
theorem Describes.isPinned_of_quiet
    (H : Describes base bound (.soft limit) (account (.soft limit) past) w)
    (hquiet : ∀ act ∈ past, act.isQuiet = true) {e : Entry α}
    (he : current? (.soft limit) k past = some e) :
    w.isPinned base k = decide (e.followed < limit) := by
  rw [H.isPinned_eq he, Entry.isPinned, not_collected_of_quiet hquiet he]
  rfl

omit [DecidableEq κ] in
/-- Different numbers below a bound are as many as the bound if they are all of them. -/
theorem le_length_iff_forall_mem {ages : List Nat} (hnodup : ages.Nodup)
    (hlt : ∀ j ∈ ages, j < limit) : limit ≤ ages.length ↔ ∀ j < limit, j ∈ ages := by
  constructor
  · intro hle j hj
    have hsub : ages ⊆ List.range limit := fun j hj => List.mem_range.mpr (hlt j hj)
    have hperm := (List.subperm_of_subset hnodup hsub).perm_of_length_le
      (by rw [List.length_range]; exact hle)
    exact hperm.mem_iff.mpr (List.mem_range.mpr hj)
  · intro hall
    have hsub : List.range limit ⊆ ages := fun j hj => hall j (List.mem_range.mp hj)
    have hle := (List.subperm_of_subset List.nodup_range hsub).length_le
    rwa [List.length_range] at hle

/-- The pinned entries of other keys are as many as the limit if there is one of each age below
it. -/
theorem Describes.le_pinnedBeside_iff
    (H : Describes base bound (.soft limit) (account (.soft limit) past) w)
    (hquiet : ∀ act ∈ past, act.isQuiet = true) (k : κ) :
    limit ≤ w.pinnedBeside base k ↔ ∀ j < limit, ∃ k' e, k' ≠ k ∧
      current? (.soft limit) k' past = some e ∧ e.followed = j := by
  let age : κ × Cell α → Nat := fun x =>
    ((current? (.soft limit) x.1 past).map (·.followed)).getD 0
  let beside := (w.ground.store base).entries.filter fun x =>
    decide (x.1 ≠ k) && x.2.lease.any (·.pinned)
  have hlength : (beside.map age).length = w.pinnedBeside base k := by
    rw [List.length_map, World.pinnedBeside, List.countP_eq_length_filter]
  have hcell : ∀ {x}, x ∈ (w.ground.store base).entries ↔ w.cell? base x.1 = some x.2 :=
    H.distinct.mem_entries
  have hage : ∀ x ∈ beside, x.1 ≠ k ∧
      ∃ e, current? (.soft limit) x.1 past = some e ∧ e.followed = age x ∧ age x < limit := by
    intro x hx
    obtain ⟨hx, hbeside⟩ := List.mem_filter.mp hx
    simp only [Bool.and_eq_true, decide_eq_true_eq] at hbeside
    have hc := hcell.mp hx
    obtain ⟨-, e, -, -, he, -⟩ := H.cell x.1 x.2 hc
    have he : current? (.soft limit) x.1 past = some e := he
    have hpinned := H.isPinned_of_quiet hquiet he
    rw [World.isPinned, hc, Option.any_some, hbeside.2] at hpinned
    exact ⟨hbeside.1, e, he, by simp [age, he], by simpa [age, he] using hpinned⟩
  have hnodup : (beside.map age).Nodup := by
    have hentries : beside.Nodup := (List.Nodup.of_map _ H.distinct).filter _
    refine hentries.map_on fun x hx y hy hsame => ?_
    obtain ⟨-, e, he, hfollowed, -⟩ := hage x hx
    obtain ⟨-, e', he', hfollowed', -⟩ := hage y hy
    have hkey := eq_of_followed_eq hquiet he he' (hfollowed.trans (hsame.trans hfollowed'.symm))
    have hx := hcell.mp (List.mem_of_mem_filter hx)
    have hy := hcell.mp (List.mem_of_mem_filter hy)
    rw [hkey, hy] at hx
    exact Prod.ext hkey (Option.some.inj hx).symm
  have hlt : ∀ j ∈ beside.map age, j < limit := by
    intro j hj
    obtain ⟨x, hx, rfl⟩ := List.mem_map.mp hj
    obtain ⟨-, e, -, -, hlt⟩ := hage x hx
    exact hlt
  rw [← hlength, le_length_iff_forall_mem hnodup hlt]
  refine forall₂_congr fun j hj => ?_
  rw [List.mem_map]
  constructor
  · rintro ⟨x, hx, rfl⟩
    obtain ⟨hne, e, he, hfollowed, -⟩ := hage x hx
    exact ⟨x.1, e, hne, he, hfollowed⟩
  · rintro ⟨k', e, hne, he, rfl⟩
    have hpinned := H.isPinned_of_quiet hquiet he
    rw [decide_eq_true hj, World.isPinned, Option.any_eq_true] at hpinned
    obtain ⟨c, hc, hpinned⟩ := hpinned
    refine ⟨(k', c), List.mem_filter.mpr ⟨hcell.mpr hc, ?_⟩, by simp [age, he]⟩
    simp [hne, hpinned]

end Pinned

/-! ## Runs -/

/-- In every run of a soft layer over a base store, with any bounds, that asks for no collection:
an entry is pinned, and found whether or not anybody else holds its instance, as long as fewer
writes have followed it than the limit says; a write of another key takes its pin if it is the one
that makes them as many. With that write more entries than the limit would be pinned if and only if
each of as many last writes before it still stands and was one of another key. -/
theorem Run.pinned_iff_followed {id : String} {base bound limit : Nat} {wiring : Wiring}
    {past : List (Act κ α)} {w : World κ α}
    (hrun : Run id base (fun m => Layer.initial κ wiring m (.soft bound limit)) past w)
    (hquiet : ∀ act ∈ past, act.isQuiet = true) :
    (∀ k e, current? (.soft limit) k past = some e →
      w.isPinned base k = decide (e.followed < limit) ∧
      (e.followed < limit → ((onBare id base).get w.moment k w.state w.ground).answer =
        .done (.ok (some { item := e.item }))) ∧
      ∀ k₀ item, k₀ ≠ k → w.moment.held item.serial = true →
        (w.isPinned base k = true ∧
            ((Call.put k₀ item).perform id base w).2.isPinned base k = false ↔
          e.followed + 1 = limit)) ∧
    ∀ k₀, limit < w.pinnedBeside base k₀ + 1 ↔ ∀ j < limit, ∃ k e, k ≠ k₀ ∧
      current? (.soft limit) k past = some e ∧ e.followed = j := by
  have hnew : ∀ m, IsNew (.soft limit) bound (Layer.initial κ wiring m (.soft bound limit)) m :=
    isNew_initial (.inl ⟨rfl, rfl⟩)
  have H := hrun.describes hnew
  refine ⟨fun k e he => ?_, fun k₀ => Nat.lt_succ_iff.trans (H.le_pinnedBeside_iff hquiet k₀)⟩
  have hpinned := H.isPinned_of_quiet hquiet he
  refine ⟨hpinned, fun hlt => ?_, fun k₀ item hne hheld => ?_⟩
  · refine H.get_of_isPinned id (isDue_of_quiet hquiet) he ?_
    exact Entry.isPinned_soft.mpr ⟨not_collected_of_quiet hquiet he, hlt⟩
  · have hrun' := hrun.call (.put k₀ item) hheld
    have hquiet' : ∀ act ∈ .put k₀ item :: past, act.isQuiet = true := by
      simpa [Act.isQuiet] using hquiet
    have he' : current? (.soft limit) k (.put k₀ item :: past) = some e.follow := by
      simp only [current?, kept_of_quiet hquiet', if_neg hne.symm]
      rw [he]
      rfl
    have hpinned' := (hrun'.describes hnew).isPinned_of_quiet hquiet' he'
    rw [hpinned, hpinned', Entry.follow]
    simp only [decide_eq_true_eq, decide_eq_false_iff_not]
    omega

/-- A soft layer with room for one lease: an entry is pinned and found when the callers have let its
instance go, until another key is written; then two would be pinned. -/
theorem found_until_another_write :
    let l₀ : Moment → Leasing Nat := fun m => Layer.initial Nat {} m (.soft 0 1)
    let m₀ : Moment := { held := fun n => decide (n < 2) }
    let w : World Nat Nat :=
      ((Call.put 1 ⟨0, .plain 10⟩).perform "users" 0 ⟨(l₀ m₀, ()), { issued := 2 }, m₀⟩).2
    Run "users" 0 l₀ [.put 1 ⟨0, .plain 10⟩] w ∧
      ((onBare "users" 0).get w.moment 1 w.state w.ground).answer =
        .done (.ok (some { item := ⟨0, .plain 10⟩ })) ∧
      w.isPinned 0 1 = true ∧
      ((Call.put 2 ⟨1, .plain 20⟩).perform "users" 0 w).2.isPinned 0 1 = false ∧
      1 < w.pinnedBeside 0 2 + 1 := by
  intro l₀ m₀ w
  have hstart : Run "users" 0 l₀ [] (⟨(l₀ m₀, ()), { issued := 2 }, m₀⟩ : World Nat Nat) := by
    refine .start m₀ { issued := 2 } List.nodup_nil rfl ?_
    rintro n (hn | hn)
    · exact of_decide_eq_true hn
    · cases hn
  have hrun : Run "users" 0 l₀ [.put 1 ⟨0, .plain 10⟩] w := hstart.call (.put 1 ⟨0, .plain 10⟩) rfl
  obtain ⟨hentries, hbeside⟩ := hrun.pinned_iff_followed (by simp [Act.isQuiet])
  obtain ⟨-, hfound, hunpins⟩ := hentries 1 { item := ⟨0, .plain 10⟩ } rfl
  obtain ⟨hpinned, hunpinned⟩ := (hunpins 2 ⟨1, .plain 20⟩ (by decide) rfl).mpr rfl
  refine ⟨hrun, hfound Nat.one_pos, hpinned, hunpinned, (hbeside 2).mpr fun j hj => ?_⟩
  obtain rfl : j = 0 := by omega
  exact ⟨1, { item := ⟨0, .plain 10⟩ }, by decide, rfl, rfl⟩

/-- The world after every caller has let go what it held. -/
def World.letGo (w : World κ α) : World κ α :=
  { w with moment := { w.moment with held := fun _ => false } }

theorem Describes.outside_letGo {base bound : Nat} {r : Retention} {a : Account κ α}
    {w : World κ α} (H : Describes base bound r a w) : Outside base w w.letGo where
  state := rfl
  tidy := H.tidy
  store := rfl
  issued := Nat.le_refl _
  pressure := rfl
  held := by
    rintro n (hn | hn)
    · cases hn
    · exact .inl (H.alive_of_outside n (.inr hn))

/-- A soft layer with room for two leases, and two keys: the second write of the second key takes the
pin of the first one, although no more than two entries would be pinned. So the first key is found
no more when the callers have let its instance go. -/
theorem rewritten_key_takes_a_pin :
    let l₀ : Moment → Leasing Nat := fun m => Layer.initial Nat {} m (.soft 0 2)
    let m₀ : Moment := { held := fun n => decide (n < 3) }
    let w₀ : World Nat Nat := ⟨(l₀ m₀, ()), { issued := 3 }, m₀⟩
    let w₁ := ((Call.put 1 ⟨0, .plain 10⟩).perform "users" 0 w₀).2
    let w₂ := ((Call.put 2 ⟨1, .plain 20⟩).perform "users" 0 w₁).2
    let w₃ := ((Call.put 2 ⟨2, .plain 30⟩).perform "users" 0 w₂).2
    let w₄ := w₃.letGo
    let past : List (Act Nat Nat) :=
      [.outside, .put 2 ⟨2, .plain 30⟩, .put 2 ⟨1, .plain 20⟩, .put 1 ⟨0, .plain 10⟩]
    Run "users" 0 l₀ past w₄ ∧ (∀ w ∈ [w₀, w₁, w₂, w₃, w₄], (w.ground.store 0).size ≤ 2) ∧
      w₂.isPinned 0 1 = true ∧ w₃.isPinned 0 1 = false ∧ ¬ 2 < w₂.pinnedBeside 0 2 + 1 ∧
      (current? (.soft 2) 1 past).map (·.item) = some ⟨0, .plain 10⟩ ∧
      ((onBare "users" 0).get w₄.moment 1 w₄.state w₄.ground).answer = .done (.ok none) := by
  intro l₀ m₀ w₀ w₁ w₂ w₃ w₄ past
  have hnew : ∀ m, IsNew (.soft 2) 0 (l₀ m) m := isNew_initial (.inl ⟨rfl, rfl⟩)
  have hstart : Run "users" 0 l₀ [] w₀ := by
    refine .start m₀ { issued := 3 } List.nodup_nil rfl ?_
    rintro n (hn | hn)
    · exact of_decide_eq_true hn
    · cases hn
  have hwritten : Run "users" 0 l₀ past.tail w₃ :=
    ((hstart.call (.put 1 ⟨0, .plain 10⟩) rfl).call (.put 2 ⟨1, .plain 20⟩) rfl).call
      (.put 2 ⟨2, .plain 30⟩) rfl
  have H := hwritten.describes hnew
  have hrun : Run "users" 0 l₀ past w₄ := hwritten.outside w₄ H.outside_letGo
  have H' := hrun.describes hnew
  have hothers : (w₄.ground.stores.erase 0).entries = [] :=
    List.eq_nil_of_length_eq_zero (by decide +kernel)
  have hnobody : ¬ IsHeld 0 0 (.soft 2) past w₄ 0 := by
    rintro (h | h | h | ⟨-, k, e, he, hpinned, hserial⟩)
    · cases h
    · rw [Ground.keptElsewhere, hothers] at h
      cases h
    · cases h
    · by_cases hk : k = 2
      · subst hk
        cases he
        cases hserial
      · by_cases hk' : k = 1
        · subst hk'
          cases he
          cases hpinned
        · simp [past, current?, hk, hk'] at he
  refine ⟨hrun, by decide +kernel, by decide +kernel, by decide +kernel, by decide +kernel, rfl, ?_⟩
  rcases H'.get_eq "users" 1 with ⟨-, heq⟩ | ⟨c, hc, halive, -⟩
  · rw [heq]
  · obtain ⟨-, e, -, -, he, hitem⟩ := (H'.purge "users").1.cell 1 c hc
    cases he
    rw [← hitem, (H'.purge "users").2.2, H'.isAlive_attend_iff] at halive
    exact absurd halive hnobody

end LayeredCache.Leasing
