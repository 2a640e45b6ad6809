import EditorMode.Fold
import EditorMode.Proofs.Partition

/-! # Folds are pairs of matching braces

A fold is looked for from its own line on, with a counter of its own.  What it finds does not depend
on where the search began: the braces of a document stand in one list, in the order of their places,
and two of them **match** if the one opens, the other closes and the braces between them are
balanced.  The fold of a line is the match of the last opening brace on it
(`exists_matches_of_foldAt?`, `foldAt?_of_matches`).

That the braces between a pair are balanced says more than that the counter comes back to zero at
the second one.  It had to come back for every brace that was opened in between, so each of these is
closed in between too (`Matches.exists_inside`), also in a document whose braces are not balanced as
a whole.  Hence folds never cross (`folds_laminar`). -/

namespace EditorMode

/-! ## Places -/

/-- The place stands before the other one. -/
def Position.Before (p q : Position) : Prop :=
  p.line < q.line ∨ (p.line = q.line ∧ p.offset < q.offset)

namespace Position

instance (p q : Position) : Decidable (p.Before q) :=
  inferInstanceAs (Decidable (_ ∨ _))

variable {p q r : Position}

theorem Before.trans (h : p.Before q) (h' : q.Before r) : p.Before r := by
  unfold Before at *
  omega

theorem Before.not_before (h : p.Before q) : ¬ q.Before p := by
  unfold Before at *
  omega

theorem before_irrefl (p : Position) : ¬ p.Before p := fun h => h.not_before h

end Position

/-- The byte length of a brace is one. -/
theorem Token.stop_of_brace? {t : Token} {brace : Brace} (h : t.brace? = some brace) :
    t.stop = t.start + 1 := by
  have htext : t.text = ['\x7b'] ∨ t.text = ['\x7d'] := by
    unfold Token.brace? at h
    split at h
    · split at h
      · rename_i hopening
        exact .inl hopening
      · split at h
        · rename_i hclosing
          exact .inr hclosing
        · cases h
    · cases h
  rcases htext with htext | htext
  · rw [Token.stop, htext]
    rfl
  · rw [Token.stop, htext]
    rfl

namespace Document

/-! ## Counting braces -/

/-- How many braces are open behind some braces, `depth` having been open before; none if more are
closed than are open. -/
def depthAfter? (depth : Nat) : List BraceMark → Option Nat
  | [] => some depth
  | mark :: marks =>
    match mark.brace, depth with
    | .opening, _ => depthAfter? (depth + 1) marks
    | .closing, 0 => none
    | .closing, depth + 1 => depthAfter? depth marks

/-- Every brace among them is opened and closed among them. -/
def Balanced (marks : List BraceMark) : Prop := depthAfter? 0 marks = some 0

section Depth

variable {depth final : Nat} {mark closing : BraceMark} {marks : List BraceMark}

theorem depthAfter?_opening (h : mark.brace = .opening) :
    depthAfter? depth (mark :: marks) = depthAfter? (depth + 1) marks := by
  simp [depthAfter?, h]

theorem depthAfter?_closing_zero (h : mark.brace = .closing) :
    depthAfter? 0 (mark :: marks) = none := by
  simp [depthAfter?, h]

theorem depthAfter?_closing_succ (h : mark.brace = .closing) :
    depthAfter? (depth + 1) (mark :: marks) = depthAfter? depth marks := by
  simp [depthAfter?, h]

theorem depthAfter?_append (depth : Nat) (marks others : List BraceMark) :
    depthAfter? depth (marks ++ others) =
      (depthAfter? depth marks).bind fun middle => depthAfter? middle others := by
  induction marks generalizing depth with
  | nil => rfl
  | cons mark marks ih =>
    rw [List.cons_append]
    cases hbrace : mark.brace with
    | opening => rw [depthAfter?_opening hbrace, depthAfter?_opening hbrace, ih]
    | closing =>
      cases depth with
      | zero =>
        rw [depthAfter?_closing_zero hbrace, depthAfter?_closing_zero hbrace]
        rfl
      | succ depth => rw [depthAfter?_closing_succ hbrace, depthAfter?_closing_succ hbrace, ih]

/-- Braces that are open around others stay open. -/
theorem depthAfter?_add (h : depthAfter? depth marks = some final) (around : Nat) :
    depthAfter? (depth + around) marks = some (final + around) := by
  induction marks generalizing depth with
  | nil =>
    obtain rfl := Option.some.inj h
    rfl
  | cons mark marks ih =>
    cases hbrace : mark.brace with
    | opening =>
      rw [depthAfter?_opening hbrace] at h ⊢
      rw [Nat.add_right_comm]
      exact ih h
    | closing =>
      cases depth with
      | zero =>
        rw [depthAfter?_closing_zero hbrace] at h
        cases h
      | succ depth =>
        rw [depthAfter?_closing_succ hbrace] at h
        rw [Nat.add_right_comm, depthAfter?_closing_succ hbrace]
        exact ih h

/-- **The brace that is found** closes one brace more than the ones before it have left open. -/
theorem matching?_eq_some_iff :
    matching? depth marks = some closing ↔
      closing.brace = .closing ∧
        ∃ inside after, marks = inside ++ closing :: after ∧ depthAfter? depth inside = some 0 := by
  induction marks generalizing depth with
  | nil => simp
  | cons mark marks ih =>
    cases hbrace : mark.brace with
    | opening =>
      rw [matching?_opening hbrace, ih]
      refine and_congr_right fun hclosing => ⟨?_, ?_⟩
      · rintro ⟨inside, after, rfl, hdepth⟩
        exact ⟨mark :: inside, after, rfl, (depthAfter?_opening hbrace).trans hdepth⟩
      · rintro ⟨inside, after, hmarks, hdepth⟩
        cases inside with
        | nil =>
          obtain ⟨rfl, -⟩ := List.cons.inj hmarks
          cases hbrace.symm.trans hclosing
        | cons first inside =>
          obtain ⟨rfl, rfl⟩ := List.cons.inj hmarks
          exact ⟨inside, after, rfl, (depthAfter?_opening hbrace).symm.trans hdepth⟩
    | closing =>
      cases depth with
      | zero =>
        rw [matching?_closing_zero hbrace]
        constructor
        · intro h
          obtain rfl := Option.some.inj h
          exact ⟨hbrace, [], marks, rfl, rfl⟩
        · rintro ⟨-, inside, after, hmarks, hdepth⟩
          cases inside with
          | nil =>
            obtain ⟨rfl, -⟩ := List.cons.inj hmarks
            rfl
          | cons first inside =>
            obtain ⟨rfl, -⟩ := List.cons.inj hmarks
            cases (depthAfter?_closing_zero hbrace).symm.trans hdepth
      | succ depth =>
        rw [matching?_closing_succ hbrace, ih]
        refine and_congr_right fun _ => ⟨?_, ?_⟩
        · rintro ⟨inside, after, rfl, hdepth⟩
          exact ⟨mark :: inside, after, rfl, (depthAfter?_closing_succ hbrace).trans hdepth⟩
        · rintro ⟨inside, after, hmarks, hdepth⟩
          cases inside with
          | nil => cases hdepth
          | cons first inside =>
            obtain ⟨rfl, rfl⟩ := List.cons.inj hmarks
            exact ⟨inside, after, rfl, (depthAfter?_closing_succ hbrace).symm.trans hdepth⟩

/-- Where no brace is found, none closes more than has been opened. -/
theorem exists_depthAfter?_of_matching? (h : matching? depth marks = none) :
    ∃ final, depthAfter? depth marks = some final := by
  induction marks generalizing depth with
  | nil => exact ⟨depth, rfl⟩
  | cons mark marks ih =>
    cases hbrace : mark.brace with
    | opening =>
      rw [matching?_opening hbrace] at h
      rw [depthAfter?_opening hbrace]
      exact ih h
    | closing =>
      cases depth with
      | zero =>
        rw [matching?_closing_zero hbrace] at h
        cases h
      | succ depth =>
        rw [matching?_closing_succ hbrace] at h
        rw [depthAfter?_closing_succ hbrace]
        exact ih h

/-- **A brace that is opened among balanced braces is closed among them.** -/
theorem Balanced.exists_matching? {before after : List BraceMark} {opening : BraceMark}
    (h : Balanced (before ++ opening :: after)) (hopening : opening.brace = .opening) :
    ∃ closing, matching? 0 after = some closing := by
  cases hmatching : matching? 0 after with
  | some closing => exact ⟨closing, rfl⟩
  | none =>
    rw [Balanced, depthAfter?_append] at h
    obtain ⟨depth, -, hdepth⟩ := Option.bind_eq_some_iff.mp h
    -- the brace would stay open to the end
    obtain ⟨final, hfinal⟩ := exists_depthAfter?_of_matching? hmatching
    have hopen := depthAfter?_add hfinal (depth + 1)
    rw [Nat.zero_add, ← depthAfter?_opening hopening, hdepth] at hopen
    cases hopen

end Depth

/-! ## The braces of a document -/

/-- The place where a brace stands. -/
def BraceMark.place (mark : BraceMark) : Position := ⟨mark.line, mark.token.start⟩

/-- All braces of a document. -/
def braces (doc : Document) : List BraceMark := bracesFrom 0 doc.lines

/-- The tokens of each line divide it. -/
def Divided (lines : List Line) : Prop := ∀ line ∈ lines, Token.Partition line.text line.tokens

theorem divided_of_readLines {config : Config} {st : State} {texts : List Text}
    {lines : List Line} (h : readLines config st texts = .ok lines) : Divided lines := by
  induction texts generalizing st lines with
  | nil =>
    obtain rfl := Except.ok.inj h
    exact nofun
  | cons text texts ih =>
    obtain ⟨tokens, state, others, hline, hothers, rfl⟩ := readLines_cons_eq_ok_iff.mp h
    intro line hmem
    rcases List.mem_cons.mp hmem with rfl | hmem
    · exact State.partition_of_tokenizeLine hline
    · exact ih hothers line hmem

theorem divided_of_highlight {config : Config} {text : Text} {doc : Document}
    (h : highlight config text = .ok doc) : Divided doc.lines := by
  obtain ⟨lines, hlines, h⟩ := Fault.bind_eq_ok.mp h
  obtain rfl := Fault.pure_eq_ok.mp h
  exact divided_of_readLines hlines

/-- Tokens that stand side by side begin one behind the other. -/
theorem le_start_of_tile {start stop : Nat} {tokens : List Token}
    (h : Token.Tile start tokens stop) :
    tokens.Pairwise (fun t u => t.start < u.start) ∧ ∀ t ∈ tokens, start ≤ t.start := by
  induction tokens generalizing start with
  | nil => exact ⟨.nil, nofun⟩
  | cons t tokens ih =>
    obtain ⟨hstart, hlt, htail⟩ := h
    obtain ⟨hpairwise, hle⟩ := ih htail
    refine ⟨List.pairwise_cons.mpr ⟨fun u hu => ?_, hpairwise⟩, fun u hu => ?_⟩
    · have := hle u hu
      omega
    · rcases List.mem_cons.mp hu with rfl | hu
      · omega
      · have := hle u hu
        omega

theorem mem_bracesOf {n : Nat} {tokens : List Token} {mark : BraceMark} :
    mark ∈ bracesOf n tokens ↔
      mark.line = n ∧ mark.token ∈ tokens ∧ mark.token.brace? = some mark.brace := by
  rw [bracesOf, List.mem_filterMap]
  constructor
  · rintro ⟨t, ht, h⟩
    obtain ⟨brace, hbrace, rfl⟩ := Option.map_eq_some_iff.mp h
    exact ⟨rfl, ht, hbrace⟩
  · rintro ⟨rfl, ht, hbrace⟩
    exact ⟨mark.token, ht, by rw [hbrace]; rfl⟩

theorem le_line_of_mem_bracesFrom {n : Nat} {lines : List Line} {mark : BraceMark}
    (h : mark ∈ bracesFrom n lines) : n ≤ mark.line := by
  induction lines generalizing n with
  | nil => cases h
  | cons line lines ih =>
    rcases List.mem_append.mp h with hmem | hmem
    · exact Nat.le_of_eq (mem_bracesOf.mp hmem).1.symm
    · exact Nat.le_of_succ_le (ih hmem)

/-- **Braces are listed in the order of their places.** -/
theorem pairwise_bracesFrom {n : Nat} {lines : List Line} (h : Divided lines) :
    (bracesFrom n lines).Pairwise fun mark other => mark.place.Before other.place := by
  induction lines generalizing n with
  | nil => exact .nil
  | cons line lines ih =>
    obtain ⟨hline, hlines⟩ := List.forall_mem_cons.mp h
    refine List.pairwise_append.mpr ⟨?_, ih hlines, ?_⟩
    · refine List.Pairwise.filterMap _ ?_ (le_start_of_tile hline.tile).1
      intro t u hlt mark hmark other hother
      obtain ⟨brace, -, rfl⟩ := Option.map_eq_some_iff.mp hmark
      obtain ⟨brace', -, rfl⟩ := Option.map_eq_some_iff.mp hother
      exact .inr ⟨rfl, hlt⟩
    · intro mark hmark other hother
      have hline := (mem_bracesOf.mp hmark).1
      have hle := le_line_of_mem_bracesFrom hother
      left
      show mark.line < other.line
      omega

section Order

/-- Two elements of a list are the same, or the one stands behind the other. -/
theorem append_cons_eq_cases {α : Type} {a b a' b' : List α} {x y : α}
    (h : a ++ x :: b = a' ++ y :: b') :
    (a = a' ∧ x = y ∧ b = b') ∨ (∃ u, a' = a ++ x :: u ∧ b = u ++ y :: b') ∨
      ∃ u, a = a' ++ y :: u ∧ b' = u ++ x :: b := by
  rcases List.append_eq_append_iff.mp h with ⟨u, hu, hb⟩ | ⟨u, hu, hb⟩
  · cases u with
    | nil =>
      obtain ⟨rfl, rfl⟩ := List.cons.inj hb
      exact .inl ⟨by rw [hu, List.append_nil], rfl, rfl⟩
    | cons z u =>
      obtain ⟨rfl, rfl⟩ := List.cons.inj hb
      exact .inr (.inl ⟨u, hu, rfl⟩)
  · cases u with
    | nil =>
      obtain ⟨rfl, rfl⟩ := List.cons.inj hb
      exact .inl ⟨by rw [hu, List.append_nil], rfl, rfl⟩
    | cons z u =>
      obtain ⟨rfl, rfl⟩ := List.cons.inj hb
      exact .inr (.inr ⟨u, hu, rfl⟩)

variable {marks before after before' after' : List BraceMark} {mark other : BraceMark}

/-- A brace that stands before another one comes before it in the list. -/
theorem exists_between_of_before
    (hordered : marks.Pairwise fun mark other => mark.place.Before other.place)
    (h : marks = before ++ mark :: after) (h' : marks = before' ++ other :: after')
    (hbefore : mark.place.Before other.place) :
    ∃ between, before' = before ++ mark :: between ∧ after = between ++ other :: after' := by
  rcases append_cons_eq_cases (h.symm.trans h') with ⟨-, rfl, -⟩ | hbehind | ⟨between, rfl, -⟩
  · exact absurd hbefore (Position.before_irrefl _)
  · exact hbehind
  · rw [h] at hordered
    have horder := (List.pairwise_append.mp hordered).2.2 other
      (List.mem_append_right _ List.mem_cons_self) mark List.mem_cons_self
    exact absurd hbefore horder.not_before

theorem before_of_append (hordered : marks.Pairwise fun mark other => mark.place.Before other.place)
    (h : marks = before ++ mark :: after) (hother : other ∈ after) :
    mark.place.Before other.place := by
  rw [h] at hordered
  exact (List.pairwise_cons.mp (List.pairwise_append.mp hordered).2.1).1 other hother

/-- A brace has one place in the list. -/
theorem append_cons_inj (hordered : marks.Pairwise fun mark other => mark.place.Before other.place)
    (h : marks = before ++ mark :: after) (h' : marks = before' ++ mark :: after') :
    before = before' ∧ after = after' := by
  rcases append_cons_eq_cases (h.symm.trans h') with
    ⟨hbefore, -, hafter⟩ | ⟨between, -, hafter⟩ | ⟨between, -, hafter⟩
  · exact ⟨hbefore, hafter⟩
  · have hmem : mark ∈ after := hafter ▸ List.mem_append_right between List.mem_cons_self
    exact absurd (before_of_append hordered h hmem) (Position.before_irrefl _)
  · have hmem : mark ∈ after' := hafter ▸ List.mem_append_right between List.mem_cons_self
    exact absurd (before_of_append hordered h' hmem) (Position.before_irrefl _)

end Order

/-! ## Matching braces -/

/-- **Two braces match**: the one opens, the other closes, and those between them are balanced. -/
structure Matches (marks : List BraceMark) (opening closing : BraceMark) : Prop where
  opens : opening.brace = .opening
  closes : closing.brace = .closing
  balanced : ∃ before inside after, marks = before ++ opening :: (inside ++ closing :: after) ∧
    Balanced inside

section Matches

variable {marks : List BraceMark} {opening closing opening' closing' : BraceMark}

/-- The search from an opening brace on finds its match. -/
theorem matches_of_matching? {before after : List BraceMark}
    (hmarks : marks = before ++ opening :: after) (hopens : opening.brace = .opening)
    (h : matching? 0 after = some closing) : Matches marks opening closing := by
  obtain ⟨hcloses, inside, rest, rfl, hinside⟩ := matching?_eq_some_iff.mp h
  exact ⟨hopens, hcloses, before, inside, rest, hmarks, hinside⟩

variable (hordered : marks.Pairwise fun mark other => mark.place.Before other.place)
include hordered

theorem Matches.matching?_eq (h : Matches marks opening closing) {before after : List BraceMark}
    (hmarks : marks = before ++ opening :: after) : matching? 0 after = some closing := by
  obtain ⟨before', inside, rest, hsplit, hinside⟩ := h.balanced
  obtain ⟨-, rfl⟩ := append_cons_inj hordered hmarks hsplit
  exact matching?_eq_some_iff.mpr ⟨h.closes, inside, rest, rfl, hinside⟩

/-- A brace has one match, -/
theorem Matches.unique (h : Matches marks opening closing) (h' : Matches marks opening closing') :
    closing = closing' := by
  obtain ⟨before, inside, after, hmarks, -⟩ := h.balanced
  exact Option.some.inj ((h.matching?_eq hordered hmarks).symm.trans
    (h'.matching?_eq hordered hmarks))

/-- which stands behind it. -/
theorem Matches.before (h : Matches marks opening closing) :
    opening.place.Before closing.place := by
  obtain ⟨before, inside, after, hmarks, -⟩ := h.balanced
  exact before_of_append hordered hmarks (List.mem_append_right inside List.mem_cons_self)

/-- **What is opened between two matching braces is closed between them.** -/
theorem Matches.exists_inside (h : Matches marks opening closing) (hmem : opening' ∈ marks)
    (hopens : opening'.brace = .opening) (hbehind : opening.place.Before opening'.place)
    (hbefore : opening'.place.Before closing.place) :
    ∃ closing', Matches marks opening' closing' ∧ closing'.place.Before closing.place := by
  obtain ⟨before, inside, after, hmarks, hinside⟩ := h.balanced
  obtain ⟨before', after', hmarks'⟩ := List.append_of_mem hmem
  obtain ⟨first, hfirst, -⟩ := exists_between_of_before hordered hmarks hmarks' hbehind
  have hclosing : marks = (before ++ opening :: inside) ++ closing :: after := by
    rw [hmarks, List.append_assoc]
    rfl
  obtain ⟨second, hsecond, rfl⟩ := exists_between_of_before hordered hmarks' hclosing hbefore
  have hsplit : inside = first ++ opening' :: second := by
    rw [hfirst, List.append_assoc] at hsecond
    exact (List.cons.inj (List.append_cancel_left hsecond)).2
  rw [hsplit] at hinside
  obtain ⟨closing', hmatching⟩ := hinside.exists_matching? hopens
  obtain ⟨hcloses, inside', rest, rfl, hinside'⟩ := matching?_eq_some_iff.mp hmatching
  have hmarks'' : marks = before' ++ opening' ::
      (inside' ++ closing' :: (rest ++ closing :: after)) := by
    rw [hmarks', List.append_assoc]
    rfl
  refine ⟨closing', ⟨hopens, hcloses, before', inside', _, hmarks'', hinside'⟩, ?_⟩
  have hclosing' : marks = (before' ++ opening' :: inside') ++ closing' ::
      (rest ++ closing :: after) := by
    rw [hmarks'', List.append_assoc]
    rfl
  exact before_of_append hordered hclosing' (List.mem_append_right rest List.mem_cons_self)

end Matches

/-! ## The fold of a line -/

/-- The token is the last opening brace on line `i`. -/
def LastOpening (i : Nat) (t : Token) (doc : Document) : Prop :=
  ∃ line before after, doc.lines[i]? = some line ∧ line.tokens = before ++ t :: after ∧
    t.brace? = some .opening ∧ ∀ u ∈ after, u.brace? ≠ some .opening

theorem lastOpening?_eq_none {marks : List BraceMark} (h : ∀ mark ∈ marks, mark.brace = .closing) :
    lastOpening? marks = none := by
  induction marks with
  | nil => rfl
  | cons mark marks ih =>
    obtain ⟨hmark, hmarks⟩ := List.forall_mem_cons.mp h
    simp [lastOpening?, ih hmarks, hmark]

theorem lastOpening?_append {before after : List BraceMark} {opening : BraceMark}
    (hopens : opening.brace = .opening) (hafter : ∀ mark ∈ after, mark.brace = .closing) :
    lastOpening? (before ++ opening :: after) = some (opening, after) := by
  induction before with
  | nil => simp [lastOpening?, lastOpening?_eq_none hafter, hopens]
  | cons mark before ih => simp [lastOpening?, ih]

theorem bracesOf_append_cons {i : Nat} {t : Token} {brace : Brace} (hbrace : t.brace? = some brace)
    (before after : List Token) :
    bracesOf i (before ++ t :: after) = bracesOf i before ++ ⟨i, t, brace⟩ :: bracesOf i after := by
  simp [bracesOf, hbrace]

/-- The braces of a document, divided around a line. -/
theorem bracesFrom_eq_append {lines : List Line} {i : Nat} {line : Line}
    (h : lines[i]? = some line) (n : Nat) :
    ∃ above, bracesFrom n lines =
      above ++ (bracesOf (n + i) line.tokens ++ bracesFrom (n + i + 1) (lines.drop (i + 1))) := by
  induction lines generalizing n i with
  | nil => cases h
  | cons first lines ih =>
    cases i with
    | zero =>
      obtain rfl := Option.some.inj h
      exact ⟨[], rfl⟩
    | succ i =>
      obtain ⟨above, habove⟩ := ih h (n + 1)
      refine ⟨bracesOf n first.tokens ++ above, ?_⟩
      have hnumber : n + (i + 1) = n + 1 + i := by omega
      rw [bracesFrom, habove, List.append_assoc, hnumber, List.drop_succ_cons]

variable {doc : Document} {i : Nat} {t : Token}

/-- **The fold of a line is searched for behind its last opening brace.** -/
theorem LastOpening.foldAt?_eq (h : doc.LastOpening i t) :
    ∃ before behind, doc.braces = before ++ ⟨i, t, .opening⟩ :: behind ∧
      doc.foldAt? i = (matching? 0 behind).bind fun closing =>
        if closing.line = i then none else some ⟨⟨i, t.stop⟩, closing.place⟩ := by
  obtain ⟨line, before, after, hline, htokens, hopens, hafter⟩ := h
  obtain ⟨above, habove⟩ := bracesFrom_eq_append hline 0
  have hbraces := bracesOf_append_cons (i := i) hopens before after
  rw [← htokens] at hbraces
  rw [Nat.zero_add, hbraces] at habove
  refine ⟨above ++ bracesOf i before,
    bracesOf i after ++ bracesFrom (i + 1) (doc.lines.drop (i + 1)), ?_, ?_⟩
  · rw [braces, habove]
    simp
  · have hlast : lastOpening? (bracesOf i line.tokens) =
        some (⟨i, t, .opening⟩, bracesOf i after) := by
      rw [hbraces]
      refine lastOpening?_append rfl fun mark hmark => ?_
      obtain ⟨-, hmem, hbrace⟩ := mem_bracesOf.mp hmark
      cases hopening : mark.brace with
      | opening => exact absurd (hopening ▸ hbrace) (hafter _ hmem)
      | closing => rfl
    rw [foldAt?, hline]
    simp only [bind, Option.bind_some, hlast]
    rfl

/-- A line with a fold has an opening brace. -/
theorem exists_lastOpening_of_foldAt? {fold : Fold} (h : doc.foldAt? i = some fold) :
    ∃ t, doc.LastOpening i t := by
  obtain ⟨line, hline, h⟩ := Option.bind_eq_some_iff.mp h
  obtain ⟨⟨opening, marks⟩, hlast, -⟩ := Option.bind_eq_some_iff.mp h
  obtain ⟨hopens, ⟨before, hsplit⟩, hmarks⟩ := lastOpening?_eq_some hlast
  obtain ⟨first, rest, htokens, -, hrest⟩ := List.filterMap_eq_append_iff.mp hsplit
  obtain ⟨silent, t, after, rfl, -, ht, hafter⟩ := List.filterMap_eq_cons_iff.mp hrest
  obtain ⟨brace, hbrace, rfl⟩ := Option.map_eq_some_iff.mp ht
  obtain rfl : brace = .opening := hopens
  refine ⟨t, line, first ++ silent, after, hline, ?_, hbrace, fun u hu hopening => ?_⟩
  · rw [htokens, List.append_assoc]
  · have hmem : ⟨i, u, .opening⟩ ∈ marks := by
      rw [← hafter]
      exact mem_bracesOf.mpr ⟨rfl, hu, hopening⟩
    cases hmarks _ hmem

/-- **The fold of a line is a pair of matching braces**, the first of which is the last opening
brace on the line, and the second stands on another line. -/
theorem exists_matches_of_foldAt? {fold : Fold} (h : doc.foldAt? i = some fold) :
    ∃ t closing, doc.LastOpening i t ∧ Matches doc.braces ⟨i, t, .opening⟩ closing ∧
      closing.line ≠ i ∧ fold = ⟨⟨i, t.stop⟩, closing.place⟩ := by
  obtain ⟨t, ht⟩ := exists_lastOpening_of_foldAt? h
  obtain ⟨before, behind, hbraces, hfold⟩ := ht.foldAt?_eq
  rw [hfold] at h
  obtain ⟨closing, hmatching, h⟩ := Option.bind_eq_some_iff.mp h
  refine ⟨t, closing, ht, matches_of_matching? hbraces rfl hmatching, ?_⟩
  split at h
  · cases h
  · rename_i hline
    exact ⟨hline, (Option.some.inj h).symm⟩

/-- Conversely the match of the last opening brace on a line is its fold, unless it stands on the
line itself. -/
theorem foldAt?_of_matches (hdoc : Divided doc.lines) (h : doc.LastOpening i t)
    {closing : BraceMark} (hmatches : Matches doc.braces ⟨i, t, .opening⟩ closing) :
    doc.foldAt? i = if closing.line = i then none else some ⟨⟨i, t.stop⟩, closing.place⟩ := by
  obtain ⟨before, behind, hbraces, hfold⟩ := h.foldAt?_eq
  rw [hfold, hmatches.matching?_eq (pairwise_bracesFrom hdoc) hbraces]
  rfl

theorem LastOpening.mem_braces (h : doc.LastOpening i t) : ⟨i, t, .opening⟩ ∈ doc.braces := by
  obtain ⟨before, behind, hbraces, -⟩ := h.foldAt?_eq
  rw [hbraces]
  exact List.mem_append_right before List.mem_cons_self

theorem LastOpening.brace?_eq (h : doc.LastOpening i t) : t.brace? = some .opening := by
  obtain ⟨line, before, after, hline, htokens, hopens, hafter⟩ := h
  exact hopens

/-! ## Folds do not cross -/

/-- A brace that a fold shows to be opened in it is closed in it. -/
theorem exists_matches_in_fold (hdoc : Divided doc.lines) {fold : Fold}
    (hfold : doc.foldAt? i = some fold) {j : Nat} {u : Token} (hu : doc.LastOpening j u)
    (hbehind : ¬ Position.Before ⟨j, u.start⟩ fold.start)
    (hbefore : Position.Before ⟨j, u.start⟩ fold.stop) :
    ∃ closing, Matches doc.braces ⟨j, u, .opening⟩ closing ∧
      closing.place.Before fold.stop := by
  obtain ⟨t, closing, ht, hmatches, -, rfl⟩ := exists_matches_of_foldAt? hfold
  refine hmatches.exists_inside (pairwise_bracesFrom hdoc) hu.mem_braces rfl ?_ hbefore
  have hstop := Token.stop_of_brace? ht.brace?_eq
  simp only [Position.Before, BraceMark.place] at hbehind ⊢
  omega

/-- **Folds are laminar.**  Let a document be any text, with balanced braces or not.

* Of the folds of two lines, the one of the earlier line ends before the other begins, or it begins
  before the other and ends behind it.  They never end at the same brace.
* Let the last opening brace of a line stand in the fold of a line: not before its beginning, and
  before its end.  This brace has a matching closing brace, which stands before the end of the fold
  too; and its own line has no fold exactly if the closing brace stands on this line. -/
theorem folds_laminar {config : Config} {text : Text} {doc : Document}
    (h : highlight config text = .ok doc) :
    (∀ i j outer inner, i < j → doc.foldAt? i = some outer → doc.foldAt? j = some inner →
      (outer.stop.Before inner.start ∨
        (outer.start.Before inner.start ∧ inner.stop.Before outer.stop)) ∧
      outer.stop ≠ inner.stop) ∧
    ∀ i j fold t, doc.foldAt? i = some fold → doc.LastOpening j t →
      ¬ Position.Before ⟨j, t.start⟩ fold.start → Position.Before ⟨j, t.start⟩ fold.stop →
      ∃ closing, Matches doc.braces ⟨j, t, .opening⟩ closing ∧
        closing.place.Before fold.stop ∧ (doc.foldAt? j = none ↔ closing.line = j) := by
  have hdoc := divided_of_highlight h
  constructor
  · intro i j outer inner hij houter hinner
    obtain ⟨t, closing, ht, hmatches, -, rfl⟩ := exists_matches_of_foldAt? houter
    obtain ⟨u, closing', hu, hmatches', -, rfl⟩ := exists_matches_of_foldAt? hinner
    have hstart : Position.Before ⟨i, t.stop⟩ ⟨j, u.stop⟩ := .inl hij
    have hstop := Token.stop_of_brace? hu.brace?_eq
    by_cases hbefore : Position.Before ⟨j, u.start⟩ closing.place
    · -- the inner brace is opened between the outer ones
      obtain ⟨closing'', hmatches'', hcloses⟩ := exists_matches_in_fold hdoc houter hu
        (fun hbefore' => by simp only [Position.Before] at hbefore'; omega) hbefore
      obtain rfl := hmatches'.unique (pairwise_bracesFrom hdoc) hmatches''
      refine ⟨.inr ⟨hstart, hcloses⟩, fun heq => ?_⟩
      exact Position.before_irrefl _ (heq ▸ hcloses)
    · -- it stands behind the outer ones, and so does its match
      have hbehind : closing.place.Before ⟨j, u.stop⟩ := by
        simp only [Position.Before] at hbefore ⊢
        omega
      have hcloses := hmatches'.before (pairwise_bracesFrom hdoc)
      refine ⟨.inl hbehind, fun heq => hbefore ?_⟩
      have hplace : closing.place = closing'.place := heq
      rw [hplace]
      exact hcloses
  · intro i j fold t hfold ht hbehind hbefore
    obtain ⟨closing, hmatches, hcloses⟩ := exists_matches_in_fold hdoc hfold ht hbehind hbefore
    refine ⟨closing, hmatches, hcloses, ?_⟩
    rw [foldAt?_of_matches hdoc ht hmatches]
    split
    · rename_i hline
      exact ⟨fun _ => hline, fun _ => rfl⟩
    · rename_i hline
      exact ⟨nofun, fun heq => absurd heq hline⟩

/-- Folds in a document whose first brace closes nothing and whose last one is never closed.  Line 1
opens two braces, of which only the second makes its fold; on line 2 a string holds a brace, and the
last opening brace is closed on the line. -/
theorem folds_laminar_unbalanced :
    let text : Text := ("\x7d a \x7b\n" ++ "b \x7b ( c \x7b\n" ++ "\"\x7d\" \x7d \x7b d \x7d\n" ++
      "\x7b\n" ++ "\x7d )\n" ++ "\x7d \x7d\n" ++ "\x7b e").toList
    let outer : Fold := ⟨⟨0, 5⟩, ⟨5, 2⟩⟩
    let inner : Fold := ⟨⟨1, 9⟩, ⟨2, 4⟩⟩
    let later : Fold := ⟨⟨3, 1⟩, ⟨4, 0⟩⟩
    let brace : Token := ⟨.punctuation, 6, ['\x7b']⟩
    ∃ doc, highlight {} text = .ok doc ∧
      doc.foldAt? 0 = some outer ∧ doc.foldAt? 1 = some inner ∧ doc.foldAt? 3 = some later ∧
      (outer.stop.Before inner.start ∨
        (outer.start.Before inner.start ∧ inner.stop.Before outer.stop)) ∧
      inner.stop ≠ later.stop ∧ doc.LastOpening 2 brace ∧
      ∃ closing, Matches doc.braces ⟨2, brace, .opening⟩ closing ∧
        closing.place.Before outer.stop ∧ (doc.foldAt? 2 = none ↔ closing.line = 2) := by
  intro text outer inner later brace
  let before : List Token :=
    [⟨.string, 0, "\"\x7d\"".toList⟩, ⟨.unstyled, 3, [' ']⟩, ⟨.punctuation, 4, ['\x7d']⟩,
     ⟨.unstyled, 5, [' ']⟩]
  let after : List Token :=
    [⟨.unstyled, 7, [' ']⟩, ⟨.atom, 8, ['d']⟩, ⟨.unstyled, 9, [' ']⟩, ⟨.punctuation, 10, ['\x7d']⟩]
  obtain ⟨doc, hdoc, houter, hinner, hlater, htokens⟩ := Fault.exists_eq_ok_of_any
    (x := highlight {} text)
    (p := fun doc => doc.foldAt? 0 = some outer ∧ doc.foldAt? 1 = some inner ∧
      doc.foldAt? 3 = some later ∧
      doc.lines[2]?.map (·.tokens) = some (before ++ brace :: after)) (by decide +kernel)
  obtain ⟨line, hline, hsplit⟩ := Option.map_eq_some_iff.mp htokens
  have hlast : doc.LastOpening 2 brace :=
    ⟨line, before, after, hline, hsplit, rfl, by decide⟩
  obtain ⟨hpairs, hinside⟩ := folds_laminar hdoc
  exact ⟨doc, hdoc, houter, hinner, hlater, (hpairs 0 1 outer inner (by decide) houter hinner).1,
    (hpairs 1 3 inner later (by decide) hinner hlater).2, hlast,
    hinside 0 2 outer brace houter hlast (by decide) (by decide)⟩

end Document
end EditorMode
