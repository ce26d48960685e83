import LayeredCache.Journal.Line
import Mathlib.Data.List.Basic

/-!
# A line of names and values tells its entry

In a line of names and values only the message stands in quotes, and of what it holds only its
quotes are escaped. The source is written as it is, so it may hold blanks, quotes, backslashes and
the beginning of a message. Still the line is read in one way only: each quote of the message
follows a backslash, and the quote that opens it follows an equals sign, so that one is the last
quote before the closing one that does not follow a backslash. Behind it a backslash was put in if
and only if a quote follows it.

## Main definitions

* `LineFormat.escaped`, `LineFormat.unescaped` — escaping and its reversal.

## Main statements

* `LineFormat.append_quote_inj` — the quote that opens an escaped text is found from behind.
* `LineFormat.logfmt_tells_entry` — lines of one time are the same for the same entries only.
-/

namespace LayeredCache

/-- A level that a blank follows is known by its name. -/
theorem Level.name_append_inj {l l' : Level} {x y : List Char}
    (h : l.name.toList ++ ' ' :: x = l'.name.toList ++ ' ' :: y) : l = l' ∧ x = y := by
  cases l <;> cases l' <;> simp [name] at h
  all_goals exact ⟨rfl, h⟩

namespace LineFormat

/-! ## Escaped texts -/

/-- Characters with a backslash before every quote. -/
def escaped (s : List Char) : List Char := s.flatMap fun c => if c = '"' then ['\\', '"'] else [c]

/-- Characters without the backslashes that a quote follows. -/
def unescaped : List Char → List Char
  | '\\' :: '"' :: s => '"' :: unescaped s
  | c :: s => c :: unescaped s
  | [] => []

theorem toList_escapeQuotes (s : String) : (escapeQuotes s).toList = escaped s.toList :=
  String.toList_ofList

theorem escaped_quote (s : List Char) : escaped ('"' :: s) = '\\' :: '"' :: escaped s := rfl

theorem escaped_cons {c : Char} (hc : c ≠ '"') (s : List Char) :
    escaped (c :: s) = c :: escaped s := by
  simp [escaped, hc]

/-- An escaped text does not begin with a quote, so no backslash in front of it is taken for one
that was put in. -/
theorem unescaped_cons_escaped (c : Char) (s : List Char) :
    unescaped (c :: escaped s) = c :: unescaped (escaped s) := by
  cases s with
  | nil => simp [escaped, unescaped]
  | cons d s =>
    by_cases hd : d = '"'
    · subst hd
      simp [escaped_quote, unescaped]
    · simp [escaped_cons hd, unescaped, hd]

theorem unescaped_escaped (s : List Char) : unescaped (escaped s) = s := by
  induction s with
  | nil => rfl
  | cons c s ih =>
    by_cases hc : c = '"'
    · subst hc
      rw [escaped_quote, unescaped, ih]
    · rw [escaped_cons hc, unescaped_cons_escaped, ih]

theorem escaped_inj {s t : List Char} (h : escaped s = escaped t) : s = t := by
  rw [← unescaped_escaped s, h, unescaped_escaped]

/-- A quote in an escaped text follows a backslash. -/
theorem getLast?_of_escaped {s a b : List Char} (h : escaped s = a ++ '"' :: b) :
    a.getLast? = some '\\' := by
  induction s generalizing a with
  | nil => simp [escaped] at h
  | cons c s ih =>
    by_cases hc : c = '"'
    · subst hc
      rw [escaped_quote] at h
      rcases a with _ | ⟨d, _ | ⟨d', a⟩⟩
      · simp at h
      · simp at h
        simp [← h.1]
      · have hlast := ih (List.cons.inj (List.cons.inj h).2).2
        simp [List.getLast?_cons, hlast]
    · rw [escaped_cons hc] at h
      cases a with
      | nil => exact absurd (List.cons.inj h).1 hc
      | cons d a =>
        have hlast := ih (List.cons.inj h).2
        simp [List.getLast?_cons, hlast]

/-- The quote that opens an escaped text is the last one that does not follow a backslash. -/
theorem append_quote_inj {x y s t : List Char} (hx : x.getLast? ≠ some '\\')
    (hy : y.getLast? ≠ some '\\') (h : x ++ '"' :: escaped s = y ++ '"' :: escaped t) :
    x = y ∧ s = t := by
  -- a later opening quote would stand in the other text, behind a backslash
  have hinside {z a u v : List Char} (hz : (z ++ '"' :: a).getLast? ≠ some '\\')
      (h : escaped u = a ++ '"' :: escaped v) : False := by
    have hlast := getLast?_of_escaped h
    simp [List.getLast?_append, List.getLast?_cons, hlast] at hz
  rcases List.append_eq_append_iff.mp h with ⟨a, rfl, ha⟩ | ⟨a, rfl, ha⟩
  · cases a with
    | nil => exact ⟨by simp, escaped_inj (List.cons.inj ha).2⟩
    | cons q a =>
      obtain ⟨rfl, hrest⟩ := List.cons.inj ha
      exact (hinside hy hrest).elim
  · cases a with
    | nil => exact ⟨by simp, (escaped_inj (List.cons.inj ha).2).symm⟩
    | cons q a =>
      obtain ⟨rfl, hrest⟩ := List.cons.inj ha
      exact (hinside hx hrest).elim

/-! ## Lines -/

theorem line_logfmt (stamp : String) (e : JournalEntry) :
    logfmt.line stamp e = "timestamp=" ++ stamp ++ " level=" ++ e.level.name ++ " target=" ++
      e.source ++ " message=\"" ++ escapeQuotes e.message ++ "\"" := rfl

theorem toList_target : " target=".toList = [' '] ++ "target=".toList := by simp

theorem toList_message : " message=\"".toList = " message".toList ++ ['=', '"'] := by simp

theorem toList_closing : "\"".toList = ['"'] := by simp

/-- Behind the level a blank follows, and in front of the quote that opens the message an equals
sign. -/
theorem toList_line_logfmt (stamp : String) (e : JournalEntry) :
    (logfmt.line stamp e).toList =
      "timestamp=".toList ++ (stamp.toList ++ (" level=".toList ++ (e.level.name.toList ++
        ' ' :: ("target=".toList ++ e.source.toList ++ " message".toList ++ ['='] ++
          '"' :: escaped e.message.toList)))) ++ ['"'] := by
  simp only [line_logfmt, String.toList_append, toList_escapeQuotes]
  simp only [toList_target, toList_message, toList_closing]
  simp only [List.append_assoc, List.cons_append, List.nil_append]

/-- Two lines of names and values of one time are the same if and only if they tell of the same
level, source and message, whatever characters the source and the message hold. -/
theorem logfmt_tells_entry (t : Timestamp) (e e' : JournalEntry) :
    logfmt.lineAt t e = logfmt.lineAt t e' ↔ e = e' := by
  refine ⟨fun h => ?_, congrArg _⟩
  have hlines := congrArg String.toList h
  simp only [lineAt, toList_line_logfmt] at hlines
  have hstamped := List.append_cancel_left (List.append_cancel_right hlines)
  obtain ⟨hlevel, hrest⟩ := Level.name_append_inj
    (List.append_cancel_left (List.append_cancel_left hstamped))
  have hfront {x : List Char} : (x ++ ['=']).getLast? ≠ some '\\' := by simp
  obtain ⟨hopening, hmessage⟩ := append_quote_inj hfront hfront hrest
  have hsource : e.source.toList = e'.source.toList := by simpa using hopening
  exact (JournalEntry.mk.injEq ..).mpr
    ⟨hlevel, String.toList_inj.mp hmessage, String.toList_inj.mp hsource⟩

end LineFormat

end LayeredCache
