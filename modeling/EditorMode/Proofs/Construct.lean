import EditorMode.Reading
import EditorMode.Proofs.Text.Search

/-! # Where a construct ends

A construct is closed by the first delimiter of its own.  A quote closes a string unless it is
**escaped**, and it is escaped if the backslashes right before it are odd in number; a star and a
slash close a comment, wherever they stand side by side.  `Closes` says of a text that it ends with
such a delimiter, and a construct **runs through** a text if the text closes it and no shorter
beginning does.

Reading a construct finds this text (`scan_of_runsThrough`), and reads all of the line where no
beginning of it closes the construct (`scan_of_staysOpen`).  For comments this is so although the
search goes from star to star over the bytes of the line. -/

namespace EditorMode

/-- How many backslashes stand at the end of a text. -/
def Text.trailingBackslashes (t : Text) : Nat := (t.reverse.takeWhile (· == '\\')).length

theorem Text.trailingBackslashes_concat_backslash (t : Text) :
    Text.trailingBackslashes (t ++ ['\\']) = Text.trailingBackslashes t + 1 := by
  simp [Text.trailingBackslashes]

theorem Text.trailingBackslashes_concat_of_ne {c : Char} (t : Text) (hc : c ≠ '\\') :
    Text.trailingBackslashes (t ++ [c]) = 0 := by
  simp [Text.trailingBackslashes, hc]

namespace Construct

/-! ## Delimiters -/

/-- The text ends with a delimiter that closes the construct. -/
def Closes : Construct → Text → Prop
  | string quote, w => ∃ body, w = body ++ [quote] ∧ Text.trailingBackslashes body % 2 = 0
  | blockComment, w => ∃ body, w = body ++ ['*', '/']

/-- The text closes the construct, and no shorter beginning of it does. -/
def RunsThrough (k : Construct) (w : Text) : Prop :=
  k.Closes w ∧ ∀ v, v <+: w → k.Closes v → v = w

/-- No beginning of the text closes the construct. -/
def StaysOpen (k : Construct) (t : Text) : Prop := ∀ v, v <+: t → ¬ k.Closes v

theorem not_closes_nil (k : Construct) : ¬ k.Closes [] := by
  intro h
  cases k with
  | string quote =>
    obtain ⟨body, hbody, -⟩ := h
    exact absurd hbody.symm (by simp)
  | blockComment =>
    obtain ⟨body, hbody⟩ := h
    exact absurd hbody.symm (by simp)

theorem RunsThrough.ne_nil {k : Construct} {w : Text} (h : k.RunsThrough w) : w ≠ [] := by
  rintro rfl
  exact k.not_closes_nil h.1

/-- A line has at most one beginning that the construct runs through. -/
theorem RunsThrough.unique {k : Construct} {v w t : Text} (hv : k.RunsThrough v)
    (hw : k.RunsThrough w) (hvt : v <+: t) (hwt : w <+: t) : v = w := by
  rcases List.prefix_or_prefix_of_prefix hvt hwt with hvw | hwv
  · exact hw.2 v hvw hv.1
  · exact (hv.2 w hwv hw.1).symm

theorem RunsThrough.not_staysOpen {k : Construct} {w t : Text} (h : k.RunsThrough w)
    (hwt : w <+: t) : ¬ k.StaysOpen t :=
  fun hopen => hopen w hwt h.1

/-! ## Strings -/

theorem closes_string_concat {quote c : Char} {body : Text} :
    (string quote).Closes (body ++ [c]) ↔
      c = quote ∧ Text.trailingBackslashes body % 2 = 0 := by
  constructor
  · rintro ⟨other, hother, heven⟩
    obtain ⟨rfl, hc⟩ := List.append_inj' hother rfl
    exact ⟨List.singleton_inj.mp hc, heven⟩
  · rintro ⟨rfl, heven⟩
    exact ⟨body, rfl, heven⟩

/-- The escape flag behind one more character is the parity of the backslashes behind it. -/
theorem escaped_concat {escaped : Bool} {body : Text} {c : Char}
    (h : escaped = true ↔ Text.trailingBackslashes body % 2 = 1) :
    (!escaped && c == '\\') = true ↔ Text.trailingBackslashes (body ++ [c]) % 2 = 1 := by
  by_cases hc : c = '\\'
  · subst hc
    rw [Text.trailingBackslashes_concat_backslash]
    cases escaped with
    | true =>
      have := h.mp rfl
      simp
      omega
    | false =>
      have : Text.trailingBackslashes body % 2 ≠ 1 := fun hodd => Bool.false_ne_true (h.mpr hodd)
      simp
      omega
  · rw [Text.trailingBackslashes_concat_of_ne body hc]
    simp [hc]

/-- A character that is not a closing quote leaves the closing to what follows it. -/
theorem closes_string_of_closes_cons {quote c : Char} {escaped : Bool} {body u : Text}
    (hescaped : escaped = true ↔ Text.trailingBackslashes body % 2 = 1)
    (hc : ¬ (c = quote ∧ ¬ escaped = true)) (h : (string quote).Closes (body ++ c :: u)) :
    u ≠ [] ∧ (string quote).Closes (body ++ [c] ++ u) := by
  refine ⟨?_, (List.append_cons body c u) ▸ h⟩
  rintro rfl
  obtain ⟨hquote, heven⟩ := closes_string_concat.mp h
  apply hc
  refine ⟨hquote, fun he => ?_⟩
  have := hescaped.mp he
  omega

/-- The search for a quote, with `body` already read, finds the first beginning of the rest with
which the string closes. -/
theorem exists_of_closingQuote? {quote : Char} {escaped : Bool} {count n : Nat} {body t : Text}
    (hescaped : escaped = true ↔ Text.trailingBackslashes body % 2 = 1)
    (h : closingQuote? quote escaped count t = some n) :
    ∃ w rest, t = w ++ rest ∧ n = count + w.length ∧ (string quote).Closes (body ++ w) ∧
      ∀ v, v <+: w → v ≠ [] → (string quote).Closes (body ++ v) → v = w := by
  -- `body` grows by each character that is passed, and the flag stays the parity of its end
  induction t generalizing escaped count body with
  | nil => cases h
  | cons c t ih =>
    rw [closingQuote?] at h
    split at h
    · rename_i hc
      obtain ⟨rfl, hnot⟩ := hc
      have heven : Text.trailingBackslashes body % 2 = 0 := by
        have := mt hescaped.mpr hnot
        omega
      refine ⟨[c], t, rfl, (Option.some.inj h).symm, closes_string_concat.mpr ⟨rfl, heven⟩, ?_⟩
      intro v hv hne _
      rcases List.prefix_cons_iff.mp hv with rfl | ⟨u, rfl, hu⟩
      · exact absurd rfl hne
      · rw [List.prefix_nil.mp hu]
    · rename_i hc
      obtain ⟨w, rest, rfl, hn, hcloses, hfirst⟩ := ih (escaped_concat hescaped) h
      refine ⟨c :: w, rest, rfl, ?_, ?_, ?_⟩
      · rw [hn, List.length_cons]
        omega
      · rw [← List.append_cons] at hcloses
        exact hcloses
      · intro v hv hne hv'
        rcases List.prefix_cons_iff.mp hv with rfl | ⟨u, rfl, hu⟩
        · exact absurd rfl hne
        · obtain ⟨hnil, hu'⟩ := closes_string_of_closes_cons hescaped hc hv'
          rw [hfirst u hu hnil hu']

/-- If the search finds no quote, no beginning of the rest closes the string. -/
theorem not_closes_of_closingQuote? {quote : Char} {escaped : Bool} {count : Nat} {body t : Text}
    (hescaped : escaped = true ↔ Text.trailingBackslashes body % 2 = 1)
    (h : closingQuote? quote escaped count t = none) :
    ∀ v, v <+: t → v ≠ [] → ¬ (string quote).Closes (body ++ v) := by
  induction t generalizing escaped count body with
  | nil =>
    intro v hv hne
    exact absurd (List.prefix_nil.mp hv) hne
  | cons c t ih =>
    rw [closingQuote?] at h
    split at h
    · cases h
    · rename_i hc
      intro v hv hne hcloses
      rcases List.prefix_cons_iff.mp hv with rfl | ⟨u, rfl, hu⟩
      · exact absurd rfl hne
      · obtain ⟨hnil, hu'⟩ := closes_string_of_closes_cons hescaped hc hcloses
        exact ih (escaped_concat hescaped) h u hu hnil hu'

/-! ## Block comments -/

theorem closes_comment_cons {c : Char} {w : Text} :
    blockComment.Closes (c :: w) ↔ (c = '*' ∧ w = ['/']) ∨ blockComment.Closes w := by
  constructor
  · rintro ⟨body, hbody⟩
    cases body with
    | nil =>
      obtain ⟨rfl, rfl⟩ := List.cons.inj hbody
      exact .inl ⟨rfl, rfl⟩
    | cons d body => exact .inr ⟨body, (List.cons.inj hbody).2⟩
  · rintro (⟨rfl, rfl⟩ | ⟨body, rfl⟩)
    · exact ⟨[], rfl⟩
    · exact ⟨c :: body, rfl⟩

/-- A character that does not begin a delimiter leaves the closing to what follows it. -/
theorem closes_comment_of_closes_cons {c : Char} {u t : Text} (hut : u <+: t)
    (hc : ¬ (c = '*' ∧ t.head? = some '/')) (h : blockComment.Closes (c :: u)) :
    blockComment.Closes u := by
  rcases closes_comment_cons.mp h with ⟨hstar, rfl⟩ | h
  · obtain ⟨rest, rfl⟩ := hut
    exact absurd ⟨hstar, rfl⟩ hc
  · exact h

theorem RunsThrough.cons {c : Char} {w : Text} (hc : ¬ (c = '*' ∧ w.head? = some '/'))
    (h : blockComment.RunsThrough w) : blockComment.RunsThrough (c :: w) := by
  refine ⟨closes_comment_cons.mpr (.inr h.1), fun v hv hcloses => ?_⟩
  rcases List.prefix_cons_iff.mp hv with rfl | ⟨u, rfl, hu⟩
  · exact absurd hcloses (not_closes_nil _)
  · rw [h.2 u hu (closes_comment_of_closes_cons hu hc hcloses)]

theorem StaysOpen.cons {c : Char} {t : Text} (hc : ¬ (c = '*' ∧ t.head? = some '/'))
    (h : blockComment.StaysOpen t) : blockComment.StaysOpen (c :: t) := by
  intro v hv hcloses
  rcases List.prefix_cons_iff.mp hv with rfl | ⟨u, rfl, hu⟩
  · exact not_closes_nil _ hcloses
  · exact h u hu (closes_comment_of_closes_cons hu hc hcloses)

/-- A text without stars in front of a comment's end changes nothing about it. -/
theorem RunsThrough.append {a w : Text} (ha : '*' ∉ a) (h : blockComment.RunsThrough w) :
    blockComment.RunsThrough (a ++ w) := by
  induction a with
  | nil => exact h
  | cons c a ih =>
    rw [List.mem_cons, not_or] at ha
    exact (ih ha.2).cons fun hc => ha.1 hc.1.symm

theorem StaysOpen.append {a t : Text} (ha : '*' ∉ a) (h : blockComment.StaysOpen t) :
    blockComment.StaysOpen (a ++ t) := by
  induction a with
  | nil => exact h
  | cons c a ih =>
    rw [List.mem_cons, not_or] at ha
    exact (ih ha.2).cons fun hc => ha.1 hc.1.symm

theorem staysOpen_nil (k : Construct) : k.StaysOpen [] := by
  intro v hv
  rw [List.prefix_nil.mp hv]
  exact k.not_closes_nil

/-- What the search from star to star finds before a star. -/
theorem exists_star_of_cutBefore? {t before star : Text}
    (h : Text.cutBefore? '*' t = some (before, star)) :
    t = before ++ star ∧ '*' ∉ before ∧ star = '*' :: star.tail := by
  obtain ⟨ht, hbefore, hhead⟩ := Text.cutBefore?_eq_some_iff.mp h
  obtain ⟨others, rfl⟩ := List.head?_eq_some_iff.mp hhead
  exact ⟨ht, hbefore, rfl⟩

/-- The search from star to star finds the first delimiter of a comment. -/
theorem exists_of_closingStar? {count n : Nat} {t : Text} (h : closingStar? count t = some n) :
    ∃ w rest, t = w ++ rest ∧ n = count + w.length ∧ blockComment.RunsThrough w := by
  fun_induction closingStar? count t with
  | case1 count t hnone => cases h
  | case2 count t before star hfound hslash =>
    obtain ⟨rfl, hbefore, hstar⟩ := exists_star_of_cutBefore? hfound
    obtain ⟨rest, hrest⟩ := List.head?_eq_some_iff.mp hslash
    have hdelimiter : blockComment.RunsThrough ['*', '/'] := by
      refine ⟨⟨[], rfl⟩, fun v hv hcloses => ?_⟩
      obtain ⟨body, rfl⟩ := hcloses
      have hlength := hv.length_le
      rw [List.length_append] at hlength
      have hnil : body = [] := List.length_eq_zero_iff.mp (by simpa using hlength)
      rw [hnil, List.nil_append]
    refine ⟨before ++ ['*', '/'], rest, ?_, ?_, hdelimiter.append hbefore⟩
    · rw [hstar, hrest]
      simp
    · rw [← Option.some.inj h, List.length_append]
      rfl
  | case3 count t before star hfound hslash ih =>
    obtain ⟨rfl, hbefore, hstar⟩ := exists_star_of_cutBefore? hfound
    obtain ⟨w, rest, hrest, hn, hw⟩ := ih h
    -- no slash follows this star, so it begins no delimiter
    have hhead : ¬ ('*' = '*' ∧ w.head? = some '/') := by
      rintro ⟨-, hslash'⟩
      apply hslash
      rw [hrest, List.head?_append, hslash']
      rfl
    refine ⟨before ++ '*' :: w, rest, ?_, ?_, (hw.cons hhead).append hbefore⟩
    · rw [hstar, hrest]
      simp
    · rw [hn, List.length_append, List.length_cons]
      omega

/-- If the search from star to star finds nothing, the comment stays open. -/
theorem staysOpen_of_closingStar? {count : Nat} {t : Text} (h : closingStar? count t = none) :
    blockComment.StaysOpen t := by
  fun_induction closingStar? count t with
  | case1 count t hnone =>
    have hstar := Text.cutBefore?_eq_none_iff.mp hnone
    rw [← List.append_nil t]
    exact (staysOpen_nil blockComment).append hstar
  | case2 count t before star hfound hslash => cases h
  | case3 count t before star hfound hslash ih =>
    obtain ⟨rfl, hbefore, hstar⟩ := exists_star_of_cutBefore? hfound
    rw [hstar]
    exact ((ih h).cons fun hc => hslash hc.2).append hbefore

/-! ## Reading -/

/-- **A construct is read through its first delimiter, or to the end of the line.** -/
theorem scan_spec (k : Construct) (s : Cursor) :
    (∃ w rest, s.rest = w ++ rest ∧ k.RunsThrough w ∧ k.scan s = (.closed, s.forward w.length)) ∨
      (k.StaysOpen s.rest ∧ k.scan s = (.unfinished, s.skipToEnd)) := by
  cases k with
  | string quote =>
    have hbegin : false = true ↔ Text.trailingBackslashes [] % 2 = 1 := by decide
    rw [scan, scanString]
    split
    · rename_i n hn
      obtain ⟨w, rest, hrest, hlength, hcloses, hfirst⟩ := exists_of_closingQuote? hbegin hn
      refine .inl ⟨w, rest, hrest, ⟨hcloses, fun v hv hv' => ?_⟩, ?_⟩
      · refine hfirst v hv ?_ hv'
        rintro rfl
        exact not_closes_nil _ hv'
      · rw [hlength, Nat.zero_add]
    · rename_i hn
      refine .inr ⟨fun v hv hv' => ?_, rfl⟩
      refine not_closes_of_closingQuote? hbegin hn v hv ?_ hv'
      rintro rfl
      exact not_closes_nil _ hv'
  | blockComment =>
    rw [scan, scanBlockComment]
    split
    · rename_i n hn
      obtain ⟨w, rest, hrest, hlength, hw⟩ := exists_of_closingStar? hn
      refine .inl ⟨w, rest, hrest, hw, ?_⟩
      rw [hlength, Nat.zero_add]
    · rename_i hn
      exact .inr ⟨staysOpen_of_closingStar? hn, rfl⟩

theorem scan_of_runsThrough {k : Construct} {s : Cursor} {w rest : Text}
    (hrest : s.rest = w ++ rest) (hw : k.RunsThrough w) :
    k.scan s = (.closed, s.forward w.length) := by
  have hprefix : w <+: s.rest := ⟨rest, hrest.symm⟩
  rcases k.scan_spec s with ⟨v, others, hothers, hv, hscan⟩ | ⟨hopen, -⟩
  · rw [hscan, hv.unique hw ⟨others, hothers.symm⟩ hprefix]
  · exact absurd hopen (hw.not_staysOpen hprefix)

theorem scan_of_staysOpen {k : Construct} {s : Cursor} (h : k.StaysOpen s.rest) :
    k.scan s = (.unfinished, s.skipToEnd) := by
  rcases k.scan_spec s with ⟨w, rest, hrest, hw, -⟩ | ⟨-, hscan⟩
  · exact absurd h (hw.not_staysOpen ⟨rest, hrest.symm⟩)
  · exact hscan

end Construct
end EditorMode
