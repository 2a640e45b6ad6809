import EditorMode.Proofs.Construct
import EditorMode.Proofs.Position

/-! # Where scanning stops

Reading the content of a string or of a comment is a loop over the operations of a cursor.  Each
round of a string's loop takes one character and turns the escape flag; each round of a comment's
loop searches the bytes of the line for the next star, takes it, and takes a slash if one follows.
`Rounds` is such a loop, and `rounds_scanString` and `rounds_scanBlockComment` say that it comes to
an end, after how many rounds at most, and that what it gives is what `Construct.scanString` and
`Construct.scanBlockComment` give.

Where it ends can be told without the loop.  A string ends behind the first quote in the rest of the
line that has an even number of backslashes right before it in this rest
(`scanString_first_quote`).  A comment ends behind the first place where a star and a slash stand
side by side, looked for at every character (`scanBlockComment_eq_occurrence`).  Both places are
given as places of the cursor in its line, in characters and in bytes. -/

namespace EditorMode

/-! ## Places in a text -/

namespace Text

/-- Number of characters before the first place where `needle` stands, which is looked for at every
character. -/
def occurrence? (needle : Text) : Text → Option Nat
  | [] => if needle.isEmpty then some 0 else none
  | c :: t =>
    if needle.isPrefixOf (c :: t) then some 0 else (occurrence? needle t).map (· + 1)

/-- The search finds the first place. -/
theorem occurrence?_eq_some_iff {needle t : Text} {i : Nat} :
    occurrence? needle t = some i ↔
      needle <+: t.drop i ∧ ∀ j, j < i → ¬ needle <+: t.drop j := by
  induction t generalizing i with
  | nil =>
    rw [occurrence?]
    split
    · rename_i hempty
      obtain rfl := List.isEmpty_iff.mp hempty
      constructor
      · intro h
        obtain rfl := Option.some.inj h
        exact ⟨List.nil_prefix, fun j hj => absurd hj (Nat.not_lt_zero j)⟩
      · rintro ⟨-, hfirst⟩
        cases i with
        | zero => rfl
        | succ i => exact absurd List.nil_prefix (hfirst 0 (Nat.succ_pos i))
    · rename_i hne
      constructor
      · intro h
        cases h
      · rintro ⟨hstands, -⟩
        rw [List.drop_nil, List.prefix_nil] at hstands
        exact absurd (List.isEmpty_iff.mpr hstands) hne
  | cons c t ih =>
    rw [occurrence?]
    split
    · rename_i hhere
      have hstands : needle <+: c :: t := List.isPrefixOf_iff_prefix.mp hhere
      constructor
      · intro h
        obtain rfl := Option.some.inj h
        exact ⟨hstands, fun j hj => absurd hj (Nat.not_lt_zero j)⟩
      · rintro ⟨-, hfirst⟩
        cases i with
        | zero => rfl
        | succ i => exact absurd hstands (hfirst 0 (Nat.succ_pos i))
    · rename_i hhere
      have hnot : ¬ needle <+: c :: t := fun h => hhere (List.isPrefixOf_iff_prefix.mpr h)
      constructor
      · intro h
        obtain ⟨m, hm, rfl⟩ := Option.map_eq_some_iff.mp h
        obtain ⟨hstands, hfirst⟩ := ih.mp hm
        refine ⟨hstands, fun j hj => ?_⟩
        cases j with
        | zero => exact hnot
        | succ j => exact hfirst j (Nat.lt_of_succ_lt_succ hj)
      · rintro ⟨hstands, hfirst⟩
        cases i with
        | zero => exact absurd hstands hnot
        | succ i =>
          have hi : occurrence? needle t = some i :=
            ih.mpr ⟨hstands, fun j hj => hfirst (j + 1) (Nat.succ_lt_succ hj)⟩
          rw [hi]
          rfl

/-- It finds nothing exactly if there is no place. -/
theorem occurrence?_eq_none_iff {needle t : Text} :
    occurrence? needle t = none ↔ ∀ i, ¬ needle <+: t.drop i := by
  constructor
  · intro h i
    -- the first of all places would have been found
    induction i using Nat.strongRecOn with
    | _ i ih =>
      intro hstands
      exact absurd (h.symm.trans (occurrence?_eq_some_iff.mpr ⟨hstands, ih⟩)) nofun
  · intro h
    cases hfound : occurrence? needle t with
    | none => rfl
    | some i => exact absurd (occurrence?_eq_some_iff.mp hfound).1 (h i)

/-- Place `i` of the text holds the quote, with an even number of backslashes right before it. -/
def ClosesAt (quote : Char) (t : Text) (i : Nat) : Prop :=
  t[i]? = some quote ∧ trailingBackslashes (t.take i) % 2 = 0

instance (quote : Char) (t : Text) (i : Nat) : Decidable (ClosesAt quote t i) :=
  inferInstanceAs (Decidable (_ ∧ _))

end Text

namespace Cursor

variable {read : Text} {s : Cursor}

/-- Reading forward goes from boundary to boundary. -/
theorem StandsAt.forward (h : s.StandsAt read) (n : Nat) :
    (s.forward n).StandsAt (read ++ s.rest.take n) := by
  obtain ⟨hline, hlength⟩ := Text.cutAt?_eq_some h
  have hdivided : (s.forward n).line = (read ++ s.rest.take n) ++ s.rest.drop n := by
    rw [List.append_assoc, List.take_append_drop]
    exact hline.symm
  have hpos : (s.forward n).pos = Text.byteLength (read ++ s.rest.take n) := by
    rw [pos_forward, ← hlength, Text.byteLength_append]
  rw [StandsAt, hpos, hdivided, Text.cutAt?_byteLength, rest_forward]

/-- Skipping to the end goes to the end of the line. -/
theorem StandsAt.pos_skipToEnd (h : s.StandsAt read) :
    s.skipToEnd.pos = Text.byteLength s.line := by
  obtain ⟨hline, hlength⟩ := Text.cutAt?_eq_some h
  rw [skipToEnd, pos_forward, List.take_length, ← hline, Text.byteLength_append, hlength]

end Cursor

namespace Construct

/-! ## Loops -/

/-- A loop: each round gives the result or what the next round begins with.  `n` rounds, the first
of which begins with `s`, give the result `r`. -/
inductive Rounds {σ ρ : Type} (round : σ → ρ ⊕ σ) : (n : Nat) → (s : σ) → (r : ρ) → Prop where
  | last {s : σ} {r : ρ} (h : round s = .inl r) : Rounds round 1 s r
  | next {s t : σ} {r : ρ} {n : Nat} (h : round s = .inr t) (others : Rounds round n t r) :
      Rounds round (n + 1) s r

/-- One round in a string: one character, before which `escaped` tells whether it is escaped. -/
def stringRound (quote : Char) : Bool × Cursor → (Outcome × Cursor) ⊕ (Bool × Cursor)
  | (escaped, s) =>
    match s.advance? with
    | none => .inl (.unfinished, s)
    | some (c, behind) =>
      if c = quote ∧ ¬ escaped then .inl (.closed, behind)
      else .inr (!escaped && c == '\\', behind)

/-- One round in a comment: on to the next star, over it, and over a slash if one follows. -/
def commentRound (s : Cursor) : (Outcome × Cursor) ⊕ Cursor :=
  match s.skipTo? '*' with
  | none => .inl (.unfinished, s.skipToEnd)
  | some star =>
    let behind := (star.advance?.map (·.2)).getD star
    match behind.eat? '/' with
    | some closed => .inl (.closed, closed)
    | none => .inr behind

/-- What reading a construct gives if a search that has counted `count` characters before the cursor
ends at `found`. -/
def resultAt (count : Nat) (found : Option Nat) (s : Cursor) : Outcome × Cursor :=
  match found with
  | some m => (.closed, s.forward (m - count))
  | none => (.unfinished, s.skipToEnd)

/-- It is the same from any place that the search has passed. -/
theorem resultAt_forward {count n : Nat} {found : Option Nat} {s : Cursor}
    (hn : n ≤ s.rest.length) (hfound : ∀ m, found = some m → count + n ≤ m) :
    resultAt (count + n) found (s.forward n) = resultAt count found s := by
  cases found with
  | none =>
    have hlength : n + (s.forward n).rest.length = s.rest.length := by
      rw [Cursor.rest_forward, List.length_drop]
      omega
    rw [resultAt, resultAt, Cursor.skipToEnd, Cursor.forward_forward, hlength, Cursor.skipToEnd]
  | some m =>
    have hlength : n + (m - (count + n)) = m - count := by
      have := hfound m rfl
      omega
    rw [resultAt, resultAt, Cursor.forward_forward, hlength]

/-- A beginning that closes the construct is not shorter than the one that it runs through. -/
theorem length_le_of_closes_take {k : Construct} {w : Text} (rest : Text) (h : k.RunsThrough w)
    {n : Nat} (hcloses : k.Closes ((w ++ rest).take n)) : w.length ≤ n := by
  rcases Nat.le_total n w.length with hle | hge
  · rw [List.take_append_of_le_length hle] at hcloses
    have hlength := congrArg List.length (h.2 _ (List.take_prefix _ _) hcloses)
    rw [List.length_take] at hlength
    omega
  · exact hge

/-! ## Strings -/

section Strings

variable {quote : Char} {s : Cursor} {read : Text} {i : Nat}

/-- The loop over the rest of a string, by induction on the rest. -/
theorem exists_rounds_closingQuote? (escaped : Bool) (count : Nat) {t : Text} (hrest : s.rest = t) :
    ∃ n, n ≤ t.length + 1 ∧ Rounds (stringRound quote) n (escaped, s)
      (resultAt count (closingQuote? quote escaped count t) s) := by
  induction t generalizing s escaped count with
  | nil =>
    have hadvance : s.advance? = none := by
      rw [Cursor.advance?, Cursor.peek?, hrest]
      rfl
    have hend : s.skipToEnd = s := by
      rw [Cursor.skipToEnd, hrest, List.length_nil, Cursor.forward_zero]
    refine ⟨1, Nat.le_refl 1, .last ?_⟩
    simp only [stringRound, hadvance, closingQuote?, resultAt, hend]
  | cons c t ih =>
    have hadvance : s.advance? = some (c, s.forward 1) := by
      rw [Cursor.advance?, Cursor.peek?, hrest]
      rfl
    have hbehind : (s.forward 1).rest = t := by
      rw [Cursor.rest_forward, hrest]
      rfl
    rw [closingQuote?]
    by_cases hc : c = quote ∧ ¬ escaped = true
    · refine ⟨1, Nat.le_add_left 1 _, .last ?_⟩
      simp only [stringRound, hadvance, if_pos hc, resultAt, Nat.add_sub_cancel_left]
    · obtain ⟨n, hn, hrounds⟩ := ih (!escaped && c == '\\') (count + 1) hbehind
      refine ⟨n + 1, Nat.succ_le_succ hn,
        .next (t := (!escaped && c == '\\', s.forward 1)) ?_ ?_⟩
      · simp only [stringRound, hadvance, if_neg hc]
      · rw [resultAt_forward (by rw [hrest]; exact Nat.le_add_left 1 _)
          fun m hm => Nat.le_of_lt (lt_of_closingQuote? hm)] at hrounds
        rw [if_neg hc]
        exact hrounds

/-- **Reading a string is its loop**, which has at most one round for each character of the rest and
one for the end of the line. -/
theorem rounds_scanString (quote : Char) (s : Cursor) :
    ∃ n, n ≤ s.rest.length + 1 ∧ Rounds (stringRound quote) n (false, s) (scanString quote s) :=
  exists_rounds_closingQuote? false 0 rfl

/-- A place where a string closes is the end of a text that closes it. -/
theorem closes_take_of_closesAt {t : Text} (h : Text.ClosesAt quote t i) :
    (string quote).Closes (t.take (i + 1)) ∧ i < t.length := by
  obtain ⟨hquote, heven⟩ := h
  refine ⟨⟨t.take i, ?_, heven⟩, (List.getElem?_eq_some_iff.mp hquote).1⟩
  rw [List.take_add_one, hquote]
  rfl

/-- The string runs through a text up to the first place where it closes. -/
theorem closesAt_of_runsThrough {w : Text} (rest : Text) (h : (string quote).RunsThrough w) :
    ∃ i, w.length = i + 1 ∧ Text.ClosesAt quote (w ++ rest) i ∧
      ∀ j, j < i → ¬ Text.ClosesAt quote (w ++ rest) j := by
  obtain ⟨body, rfl, heven⟩ := h.1
  refine ⟨body.length, by simp, ⟨by simp, ?_⟩, fun j hj hcloses => ?_⟩
  · rw [List.append_assoc, List.take_left]
    exact heven
  · have hle := length_le_of_closes_take rest h (closes_take_of_closesAt hcloses).1
    rw [List.length_append, List.length_singleton] at hle
    omega

/-- A string closes behind the first place where it can, or stays unfinished to the end of the
line. -/
theorem scanString_spec (quote : Char) (s : Cursor) :
    (∃ i, Text.ClosesAt quote s.rest i ∧ (∀ j, j < i → ¬ Text.ClosesAt quote s.rest j) ∧
        scanString quote s = (.closed, s.forward (i + 1))) ∨
      ((∀ i, ¬ Text.ClosesAt quote s.rest i) ∧
        scanString quote s = (.unfinished, s.skipToEnd)) := by
  rcases (string quote).scan_spec s with ⟨w, rest, hrest, hw, hscan⟩ | ⟨hopen, hscan⟩
  · obtain ⟨i, hlength, hcloses, hfirst⟩ := closesAt_of_runsThrough rest hw
    rw [← hrest] at hcloses hfirst
    rw [hlength] at hscan
    exact .inl ⟨i, hcloses, hfirst, hscan⟩
  · refine .inr ⟨fun i hcloses => ?_, hscan⟩
    exact hopen _ (List.take_prefix _ _) (closes_take_of_closesAt hcloses).1

/-- **A string closes behind the first quote that is not escaped.**  Take a cursor at any boundary
of any line, and any character as the quote, be it the backslash.

* Reading the string closes it exactly if the rest of the line holds a quote with an even number of
  backslashes right before it in this rest.
* The cursor then stands just behind the first such quote.
* Otherwise it stands at the end of the line.

Only the rest counts: a quote at its beginning closes whatever stands before it in the line.  The
result is that of the loop over the characters, which ends in any case. -/
theorem scanString_first_quote (h : s.StandsAt read) (quote : Char) :
    ((scanString quote s).1 = .closed ↔ ∃ i, Text.ClosesAt quote s.rest i) ∧
    (∀ i, Text.ClosesAt quote s.rest i → (∀ j, j < i → ¬ Text.ClosesAt quote s.rest j) →
      scanString quote s = (.closed, s.forward (i + 1)) ∧
      (s.forward (i + 1)).StandsAt (read ++ s.rest.take i ++ [quote]) ∧
      (s.forward (i + 1)).pos = s.pos + Text.byteLength (s.rest.take i) + quote.utf8Size) ∧
    ((∀ i, ¬ Text.ClosesAt quote s.rest i) →
      scanString quote s = (.unfinished, s.skipToEnd) ∧
      s.skipToEnd.pos = Text.byteLength s.line ∧ s.skipToEnd.atLineEnd) ∧
    ∃ n, n ≤ s.rest.length + 1 ∧ Rounds (stringRound quote) n (false, s) (scanString quote s) := by
  refine ⟨?_, fun i hcloses hfirst => ?_, fun hnone => ?_, rounds_scanString quote s⟩
  · rcases scanString_spec quote s with ⟨i, hcloses, -, hscan⟩ | ⟨hnone, hscan⟩
    · exact ⟨fun _ => ⟨i, hcloses⟩, fun _ => by rw [hscan]⟩
    · refine ⟨fun hclosed => ?_, fun ⟨i, hcloses⟩ => absurd hcloses (hnone i)⟩
      rw [hscan] at hclosed
      cases hclosed
  · have htake : s.rest.take (i + 1) = s.rest.take i ++ [quote] := by
      rw [List.take_add_one, hcloses.1]
      rfl
    have hscan : scanString quote s = (.closed, s.forward (i + 1)) := by
      rcases scanString_spec quote s with ⟨m, hm, hmfirst, hscan⟩ | ⟨hnone, -⟩
      · have hle : ¬ m < i := fun hlt => hfirst m hlt hm
        have hge : ¬ i < m := fun hlt => hmfirst i hlt hcloses
        obtain rfl : m = i := by omega
        exact hscan
      · exact absurd hcloses (hnone i)
    refine ⟨hscan, ?_, ?_⟩
    · rw [List.append_assoc, ← htake]
      exact h.forward (i + 1)
    · rw [Cursor.pos_forward, htake, Text.byteLength_append, Text.byteLength_cons,
        Text.byteLength_nil, Nat.add_zero, Nat.add_assoc]
  · rcases scanString_spec quote s with ⟨i, hcloses, -⟩ | ⟨-, hscan⟩
    · exact absurd hcloses (hnone i)
    · refine ⟨hscan, h.pos_skipToEnd, ?_⟩
      rw [Cursor.atLineEnd, Cursor.rest_skipToEnd]
      rfl

/-- Behind the `é`, an escaped quote, two backslashes and a quote that closes.  With the backslash
as the quote, the first backslash closes. -/
theorem scanString_first_quote_escapes :
    let s := (Cursor.ofLine "é\\\"\\\\\"z".toList 4).forward 1
    s.StandsAt ['é'] ∧ Text.ClosesAt '\"' s.rest 4 ∧
      (∀ j, j < 4 → ¬ Text.ClosesAt '\"' s.rest j) ∧
      scanString '\"' s = (.closed, s.forward 5) ∧ (s.forward 5).pos = 7 ∧
      scanString '\\' s = (.closed, s.forward 1) := by
  intro s
  have hstands : s.StandsAt ['é'] := rfl
  have hcloses : Text.ClosesAt '\"' s.rest 4 := by decide
  have hfirst : ∀ j, j < 4 → ¬ Text.ClosesAt '\"' s.rest j := by decide
  obtain ⟨hscan, -, hpos⟩ := (scanString_first_quote hstands '\"').2.1 4 hcloses hfirst
  obtain ⟨hbackslash, -⟩ := (scanString_first_quote hstands '\\').2.1 0 (by decide) (by decide)
  exact ⟨hstands, hcloses, hfirst, hscan, hpos, hbackslash⟩

end Strings

/-! ## Block comments -/

section Comments

variable {s : Cursor} {read : Text} {i : Nat}

/-- What a round does that finds a star. -/
theorem commentRound_of_star {before star : Text}
    (hfound : Text.cutBefore? '*' s.rest = some (before, star)) :
    (s.forward (before.length + 1)).rest = star.tail ∧
      commentRound s =
        if star.tail.head? = some '/' then .inl (.closed, s.forward (before.length + 2))
        else .inr (s.forward (before.length + 1)) := by
  obtain ⟨hrest, -, hstar⟩ := exists_star_of_cutBefore? hfound
  have hbehind : (s.forward (before.length + 1)).rest = star.tail := by
    rw [Cursor.rest_forward, hrest, ← List.tail_drop, List.drop_left]
  have hskip : s.skipTo? '*' = some (s.forward before.length) := by
    rw [Cursor.skipTo?, hfound, Option.map_some]
  have hadvance : (s.forward before.length).advance? =
      some ('*', s.forward (before.length + 1)) := by
    have hpeek : (s.forward before.length).peek? = some '*' := by
      rw [Cursor.peek?, Cursor.rest_forward, hrest, List.drop_left, hstar, List.head?_cons]
    rw [Cursor.advance?, hpeek, Option.map_some, Cursor.forward_forward]
  refine ⟨hbehind, ?_⟩
  simp only [commentRound, hskip, hadvance, Option.map_some, Option.getD_some, Cursor.eat?,
    Cursor.peek?, hbehind]
  by_cases hslash : star.tail.head? = some '/'
  · simp only [if_pos hslash, Cursor.forward_forward]
  · simp only [if_neg hslash]

/-- The loop over the rest of a comment, by induction on the search from star to star. -/
theorem exists_rounds_closingStar? (count : Nat) {t : Text} (hrest : s.rest = t) :
    ∃ n, n ≤ t.count '*' + 1 ∧
      Rounds commentRound n s (resultAt count (closingStar? count t) s) := by
  fun_induction closingStar? count t generalizing s with
  | case1 count t hnone =>
    refine ⟨1, Nat.le_add_left 1 _, .last ?_⟩
    simp only [commentRound, Cursor.skipTo?, hrest, hnone, Option.map_none, resultAt]
  | case2 count t before star hfound hslash =>
    obtain ⟨-, hround⟩ := commentRound_of_star (hrest ▸ hfound)
    rw [if_pos hslash] at hround
    refine ⟨1, Nat.le_add_left 1 _, .last ?_⟩
    rw [hround, resultAt, Nat.add_assoc, Nat.add_sub_cancel_left]
  | case3 count t before star hfound hslash ih =>
    obtain ⟨hbehind, hround⟩ := commentRound_of_star (hrest ▸ hfound)
    obtain ⟨hsplit, -, hstar⟩ := exists_star_of_cutBefore? hfound
    rw [if_neg hslash] at hround
    obtain ⟨n, hn, hrounds⟩ := ih hbehind
    refine ⟨n + 1, ?_, .next hround ?_⟩
    · rw [hsplit, hstar, List.count_append, List.count_cons_self]
      omega
    · have hle : before.length + 1 ≤ s.rest.length := by
        rw [hrest, hsplit, hstar, List.length_append, List.length_cons]
        omega
      rw [Nat.add_assoc, resultAt_forward hle
        fun m hm => Nat.le_of_lt (lt_of_closingStar? hm)] at hrounds
      exact hrounds

/-- **Reading a comment is its loop**, which has at most one round for each star of the rest and one
more. -/
theorem rounds_scanBlockComment (s : Cursor) :
    ∃ n, n ≤ s.rest.count '*' + 1 ∧ Rounds commentRound n s (scanBlockComment s) :=
  exists_rounds_closingStar? 0 rfl

/-- Where a star and a slash stand side by side, a text ends that closes a comment. -/
theorem closes_take_of_delimiter {t : Text} (h : ['*', '/'] <+: t.drop i) :
    blockComment.Closes (t.take (i + 2)) ∧ i + 2 ≤ t.length := by
  obtain ⟨rest, hrest⟩ := h
  refine ⟨⟨t.take i, ?_⟩, ?_⟩
  · rw [List.take_add, ← hrest]
    rfl
  · have hlength := congrArg List.length hrest
    rw [List.length_append, List.length_drop] at hlength
    have htwo : ['*', '/'].length = 2 := rfl
    omega

/-- The comment runs through a text up to the first delimiter. -/
theorem occurrence?_of_runsThrough {w : Text} (rest : Text) (h : blockComment.RunsThrough w) :
    ∃ i, w.length = i + 2 ∧ Text.occurrence? ['*', '/'] (w ++ rest) = some i := by
  obtain ⟨body, rfl⟩ := h.1
  refine ⟨body.length, by simp, Text.occurrence?_eq_some_iff.mpr ⟨?_, fun j hj hdelimiter => ?_⟩⟩
  · rw [List.append_assoc, List.drop_left]
    exact List.prefix_append _ _
  · have hle := length_le_of_closes_take rest h (closes_take_of_delimiter hdelimiter).1
    have htwo : ['*', '/'].length = 2 := rfl
    rw [List.length_append] at hle
    omega

/-- The search from star to star finds what the search at every character finds. -/
theorem scanBlockComment_eq (s : Cursor) :
    scanBlockComment s =
      match Text.occurrence? ['*', '/'] s.rest with
      | some i => (.closed, s.forward (i + 2))
      | none => (.unfinished, s.skipToEnd) := by
  rcases blockComment.scan_spec s with ⟨w, rest, hrest, hw, hscan⟩ | ⟨hopen, hscan⟩
  · obtain ⟨i, hlength, hfound⟩ := occurrence?_of_runsThrough rest hw
    rw [hlength] at hscan
    rw [hrest, hfound]
    exact hscan
  · have hnone : Text.occurrence? ['*', '/'] s.rest = none := by
      refine Text.occurrence?_eq_none_iff.mpr fun i hdelimiter => ?_
      exact hopen _ (List.take_prefix _ _) (closes_take_of_delimiter hdelimiter).1
    rw [hnone]
    exact hscan

/-- In a run of stars and a slash, the last star and the slash are the delimiter. -/
theorem occurrence?_stars_slash (n : Nat) (rest : Text) :
    Text.occurrence? ['*', '/'] (List.replicate (n + 1) '*' ++ '/' :: rest) = some n := by
  induction n with
  | zero => rfl
  | succ n ih =>
    rw [List.replicate_succ, List.cons_append, Text.occurrence?, ih]
    rfl

/-- Stars alone hold none. -/
theorem occurrence?_stars (n : Nat) :
    Text.occurrence? ['*', '/'] (List.replicate n '*') = none := by
  induction n with
  | zero => rfl
  | succ n ih =>
    rw [List.replicate_succ, Text.occurrence?, ih]
    cases n with
    | zero => rfl
    | succ n => rfl

/-- **The search from star to star is the search at every character.**  Take a cursor at any
boundary of any line.

* Where a star and a slash stand side by side in the rest of the line, reading a comment closes it
  at the first such place, and the cursor then stands just behind the slash.
* Where they do not, the comment is unfinished and the cursor stands at the end of the line.
* The result is that of the loop, which ends: it has at most one round more than there are stars.

So the last of any number of stars closes with a slash behind it, and stars at the end of the line
do not. -/
theorem scanBlockComment_eq_occurrence (h : s.StandsAt read) :
    (scanBlockComment s =
      match Text.occurrence? ['*', '/'] s.rest with
      | some i => (.closed, s.forward (i + 2))
      | none => (.unfinished, s.skipToEnd)) ∧
    (∀ i, Text.occurrence? ['*', '/'] s.rest = some i →
      (s.forward (i + 2)).StandsAt (read ++ s.rest.take i ++ ['*', '/']) ∧
      (s.forward (i + 2)).pos = s.pos + Text.byteLength (s.rest.take i) + 2) ∧
    (s.skipToEnd.pos = Text.byteLength s.line ∧ s.skipToEnd.atLineEnd) ∧
    (∃ n, n ≤ s.rest.count '*' + 1 ∧ Rounds commentRound n s (scanBlockComment s)) ∧
    (∀ n rest, s.rest = List.replicate (n + 1) '*' ++ '/' :: rest →
      scanBlockComment s = (.closed, s.forward (n + 2))) ∧
    (∀ n, s.rest = List.replicate n '*' → scanBlockComment s = (.unfinished, s.skipToEnd)) := by
  refine ⟨scanBlockComment_eq s, fun i hfound => ?_, ⟨h.pos_skipToEnd, ?_⟩,
    rounds_scanBlockComment s, fun n rest hrest => ?_, fun n hrest => ?_⟩
  · obtain ⟨⟨rest, hrest⟩, -⟩ := Text.occurrence?_eq_some_iff.mp hfound
    have htake : s.rest.take (i + 2) = s.rest.take i ++ ['*', '/'] := by
      rw [List.take_add, ← hrest]
      rfl
    refine ⟨?_, ?_⟩
    · rw [List.append_assoc, ← htake]
      exact h.forward (i + 2)
    · rw [Cursor.pos_forward, htake, Text.byteLength_append, ← Nat.add_assoc]
      rfl
  · rw [Cursor.atLineEnd, Cursor.rest_skipToEnd]
    rfl
  · rw [scanBlockComment_eq, hrest, occurrence?_stars_slash]
  · rw [scanBlockComment_eq, hrest, occurrence?_stars]

/-- Behind the `é`, the second of two stars closes with the slash behind it; a slash before a star
does not close. -/
theorem scanBlockComment_eq_occurrence_stars :
    let s := (Cursor.ofLine "é**/ x*/".toList 4).forward 1
    let t := (Cursor.ofLine "é/ *".toList 4).forward 1
    s.StandsAt ['é'] ∧ t.StandsAt ['é'] ∧ scanBlockComment s = (.closed, s.forward 3) ∧
      (s.forward 3).pos = 5 ∧ scanBlockComment t = (.unfinished, t.skipToEnd) := by
  intro s t
  have hs : s.StandsAt ['é'] := rfl
  have ht : t.StandsAt ['é'] := rfl
  obtain ⟨hscan, hplace, -⟩ := scanBlockComment_eq_occurrence hs
  exact ⟨hs, ht, hscan, (hplace 1 rfl).2, (scanBlockComment_eq_occurrence ht).1⟩

end Comments

end Construct
end EditorMode
