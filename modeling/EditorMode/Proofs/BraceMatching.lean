import EditorMode.Proofs.Folding
import EditorMode.Proofs.Segmentation

/-! # The brace at which a fold ends

A fold is searched for line by line, with a counter of the braces that are open.  What is found can
be said of the whole document at once.  All its tokens stand in one list, line after line
(`Document.allTokens`).  Behind the last opening brace of a line, the fold ends at the first closing
brace with which more braces have been closed than opened, if there is one and it stands on a later
line.

The counter is the number of opening braces less the number of closing ones
(`depthAfter?_eq_some_iff`).  That no beginning closes more than it opens is also what it means that
the braces up to the end of the fold are nested in pairs (`NestedBraces`).  The main result is
`fold_ends_at_first_excess`. -/

namespace EditorMode

/-! ## Braces among the tokens -/

/-- The character that a brace is. -/
def Brace.char : Brace → Char
  | opening => '{'
  | closing => '}'

namespace Token

/-- The token is the punctuation character `c`. -/
def IsMark (c : Char) (t : Token) : Prop := t.category = .punctuation ∧ t.text = [c]

instance (c : Char) (t : Token) : Decidable (t.IsMark c) :=
  inferInstanceAs (Decidable (_ ∧ _))

variable {t : Token}

theorem brace?_eq_some_iff {brace : Brace} : t.brace? = some brace ↔ t.IsMark brace.char := by
  unfold brace? IsMark
  by_cases hcategory : t.category = .punctuation
  · rw [if_pos hcategory]
    by_cases hopening : t.text = ['{']
    · cases brace <;> simp [hcategory, hopening, Brace.char]
    · by_cases hclosing : t.text = ['}']
      · cases brace <;> simp [hcategory, hclosing, Brace.char]
      · cases brace <;> simp [hopening, hclosing, Brace.char]
  · simp [hcategory]

/-- No token is both braces. -/
theorem IsMark.unique {c d : Char} (h : t.IsMark c) (h' : t.IsMark d) : c = d :=
  List.singleton_inj.mp (h.2.symm.trans h'.2)

end Token

namespace Document

/-- A token of a document: the line on which it stands, and the token. -/
structure LineToken where
  line : Nat
  token : Token
  deriving DecidableEq, Repr

/-- The tokens of consecutive lines, the first of which has the number `n`. -/
def tokensFrom (n : Nat) : List Line → List LineToken
  | [] => []
  | line :: lines => line.tokens.map (LineToken.mk n) ++ tokensFrom (n + 1) lines

/-- All tokens of a document in their order. -/
def allTokens (doc : Document) : List LineToken := tokensFrom 0 doc.lines

/-- How many of the tokens are the punctuation character `c`. -/
def count (c : Char) (tokens : List LineToken) : Nat := tokens.countP fun x => x.token.IsMark c

/-- The brace that a token is, at its place. -/
def LineToken.mark? (x : LineToken) : Option BraceMark :=
  x.token.brace?.map fun brace => ⟨x.line, x.token, brace⟩

section Braces

variable {x : LineToken} {tokens : List LineToken} {mark : BraceMark}

theorem LineToken.mark?_eq_some_iff :
    x.mark? = some mark ↔
      mark.line = x.line ∧ mark.token = x.token ∧ x.token.brace? = some mark.brace := by
  rw [mark?, Option.map_eq_some_iff]
  constructor
  · rintro ⟨brace, hbrace, rfl⟩
    exact ⟨rfl, rfl, hbrace⟩
  · rintro ⟨hline, htoken, hbrace⟩
    refine ⟨mark.brace, hbrace, ?_⟩
    rw [← hline, ← htoken]

theorem bracesOf_eq_filterMap (n : Nat) (tokens : List Token) :
    bracesOf n tokens = (tokens.map (LineToken.mk n)).filterMap LineToken.mark? := by
  rw [bracesOf, List.filterMap_map]
  rfl

/-- The braces are found among the tokens. -/
theorem bracesFrom_eq_filterMap (n : Nat) (lines : List Line) :
    bracesFrom n lines = (tokensFrom n lines).filterMap LineToken.mark? := by
  induction lines generalizing n with
  | nil => rfl
  | cons line lines ih =>
    rw [bracesFrom, tokensFrom, List.filterMap_append, ih, bracesOf_eq_filterMap]

theorem count_append (c : Char) (first others : List LineToken) :
    count c (first ++ others) = count c first + count c others :=
  List.countP_append

theorem count_cons_of_isMark {c : Char} (h : x.token.IsMark c) (tokens : List LineToken) :
    count c (x :: tokens) = count c tokens + 1 := by
  simp [count, h]

theorem count_cons_of_not_isMark {c : Char} (h : ¬ x.token.IsMark c) (tokens : List LineToken) :
    count c (x :: tokens) = count c tokens := by
  simp [count, h]

end Braces

/-! ## Counting -/

theorem LineToken.mark?_of_isMark {x : LineToken} (brace : Brace) (h : x.token.IsMark brace.char) :
    x.mark? = some ⟨x.line, x.token, brace⟩ := by
  rw [mark?, Token.brace?_eq_some_iff.mpr h]
  rfl

theorem LineToken.mark?_eq_none {x : LineToken} (hopens : ¬ x.token.IsMark '{')
    (hcloses : ¬ x.token.IsMark '}') : x.mark? = none := by
  rw [mark?, Option.map_eq_none_iff]
  cases hbrace : x.token.brace? with
  | none => rfl
  | some brace =>
    have hmark := Token.brace?_eq_some_iff.mp hbrace
    cases brace with
    | opening => exact absurd hmark hopens
    | closing => exact absurd hmark hcloses

/-- Every beginning of a list with one more element is empty or has the element first. -/
theorem forall_prefix_cons {α : Type} {P : List α → Prop} {a : α} {l : List α} :
    (∀ v, v <+: a :: l → P v) ↔ P [] ∧ ∀ v, v <+: l → P (a :: v) := by
  constructor
  · intro h
    exact ⟨h [] List.nil_prefix, fun v hv => h _ (List.cons_prefix_cons.mpr ⟨rfl, hv⟩)⟩
  · rintro ⟨hnil, hcons⟩ v hv
    rcases List.prefix_cons_iff.mp hv with rfl | ⟨u, rfl, hu⟩
    · exact hnil
    · exact hcons u hu

/-- With the first of some tokens, the depth becomes what makes up for it. -/
theorem forall_prefix_count_cons {x : LineToken} {depth next : Nat}
    (hnext : depth + count '{' [x] = next + count '}' [x]) (tokens : List LineToken) :
    (∀ seen, seen <+: x :: tokens → count '}' seen ≤ depth + count '{' seen) ↔
      ∀ seen, seen <+: tokens → count '}' seen ≤ next + count '{' seen := by
  have hcons : ∀ c seen, count c (x :: seen) = count c [x] + count c seen :=
    fun c seen => count_append c [x] seen
  rw [forall_prefix_cons]
  constructor
  · rintro ⟨-, h⟩ seen hseen
    have hle := h seen hseen
    rw [hcons '{', hcons '}'] at hle
    omega
  · intro h
    refine ⟨Nat.zero_le _, fun seen hseen => ?_⟩
    have hle := h seen hseen
    rw [hcons '{', hcons '}']
    omega

/-- **The counter counts.**  It is the number of braces that are open before and of those that have
been opened, less the number of those that have been closed; it has a value as long as no beginning
closes more than there are. -/
theorem depthAfter?_eq_some_iff {depth final : Nat} {tokens : List LineToken} :
    depthAfter? depth (tokens.filterMap LineToken.mark?) = some final ↔
      (∀ seen, seen <+: tokens → count '}' seen ≤ depth + count '{' seen) ∧
        count '}' tokens + final = depth + count '{' tokens := by
  induction tokens generalizing depth with
  | nil =>
    have hnil : ∀ seen : List LineToken, seen <+: [] → count '}' seen ≤ depth + count '{' seen := by
      intro seen hseen
      rw [List.prefix_nil.mp hseen]
      exact Nat.zero_le _
    simp only [List.filterMap_nil, depthAfter?, Option.some.injEq, count, List.countP_nil]
    constructor
    · rintro rfl
      exact ⟨hnil, by omega⟩
    · rintro ⟨-, h⟩
      omega
  | cons x tokens ih =>
    by_cases hopens : x.token.IsMark '{'
    · have hcloses : ¬ x.token.IsMark '}' := fun h => absurd (hopens.unique h) (by decide)
      have hopened := count_cons_of_isMark hopens
      have hclosed := count_cons_of_not_isMark hcloses
      have hnext : depth + count '{' [x] = depth + 1 + count '}' [x] := by
        rw [hopened, hclosed]
        rfl
      rw [List.filterMap_cons_some (LineToken.mark?_of_isMark .opening hopens),
        depthAfter?_opening rfl, ih, forall_prefix_count_cons hnext, hopened, hclosed]
      refine and_congr_right fun _ => ?_
      omega
    · have hopened := count_cons_of_not_isMark hopens
      by_cases hcloses : x.token.IsMark '}'
      · have hclosed := count_cons_of_isMark hcloses
        rw [List.filterMap_cons_some (LineToken.mark?_of_isMark .closing hcloses), hopened, hclosed]
        cases depth with
        | zero =>
          rw [depthAfter?_closing_zero rfl]
          constructor
          · intro h
            cases h
          · rintro ⟨h, -⟩
            have hfirst := h [x] (List.prefix_append [x] tokens)
            rw [hopened, hclosed] at hfirst
            exact absurd hfirst (by simp [count])
        | succ depth =>
          have hnext : depth + 1 + count '{' [x] = depth + count '}' [x] := by
            rw [hopened, hclosed]
            rfl
          rw [depthAfter?_closing_succ rfl, ih, forall_prefix_count_cons hnext]
          refine and_congr_right fun _ => ?_
          omega
      · have hclosed := count_cons_of_not_isMark hcloses
        have hnext : depth + count '{' [x] = depth + count '}' [x] := by
          rw [hopened, hclosed]
          rfl
        rw [List.filterMap_cons_none (LineToken.mark?_eq_none hopens hcloses), ih,
          forall_prefix_count_cons hnext, hopened, hclosed]

/-! ## The first excess -/

section Excess

variable {tokens inside : List LineToken} {closing : LineToken}

/-- **Among the tokens, `closing` is the first closing brace with which more braces have been closed
than opened**, and `inside` is what stands before it. -/
structure FirstExcess (tokens inside : List LineToken) (closing : LineToken) : Prop where
  split : ∃ rest, tokens = inside ++ closing :: rest
  closes : closing.token.IsMark '}'
  exceeds : count '{' (inside ++ [closing]) < count '}' (inside ++ [closing])
  first : ∀ seen, seen <+: inside → count '}' seen ≤ count '{' seen

theorem balanced_iff_count :
    Balanced (tokens.filterMap LineToken.mark?) ↔
      (∀ seen, seen <+: tokens → count '}' seen ≤ count '{' seen) ∧
        count '}' tokens = count '{' tokens := by
  rw [Balanced, depthAfter?_eq_some_iff, Nat.zero_add, Nat.add_zero]
  simp only [Nat.zero_add]

theorem count_closing (h : closing.token.IsMark '}') (inside : List LineToken) :
    count '{' (inside ++ [closing]) = count '{' inside ∧
      count '}' (inside ++ [closing]) = count '}' inside + 1 := by
  have hother : ¬ closing.token.IsMark '{' := fun h' => absurd (h.unique h') (by decide)
  rw [count_append, count_append, count_cons_of_not_isMark hother, count_cons_of_isMark h]
  exact ⟨rfl, rfl⟩

/-- The first excess is an excess of one. -/
theorem FirstExcess.count_eq (h : FirstExcess tokens inside closing) :
    count '}' inside = count '{' inside := by
  obtain ⟨hopened, hclosed⟩ := count_closing h.closes inside
  have hexceeds := h.exceeds
  have hall := h.first inside List.prefix_rfl
  omega

theorem firstExcess_iff_balanced :
    FirstExcess tokens inside closing ↔
      (∃ rest, tokens = inside ++ closing :: rest) ∧ closing.token.IsMark '}' ∧
        Balanced (inside.filterMap LineToken.mark?) := by
  rw [balanced_iff_count]
  constructor
  · intro h
    exact ⟨h.split, h.closes, h.first, h.count_eq⟩
  · rintro ⟨hsplit, hcloses, hfirst, hall⟩
    obtain ⟨hopened, hclosed⟩ := count_closing hcloses inside
    exact ⟨hsplit, hcloses, by omega, hfirst⟩

/-- **The search finds the first excess.** -/
theorem matching?_eq_some_iff_firstExcess {mark : BraceMark} :
    matching? 0 (tokens.filterMap LineToken.mark?) = some mark ↔
      ∃ inside closing, FirstExcess tokens inside closing ∧
        mark = ⟨closing.line, closing.token, .closing⟩ := by
  rw [matching?_eq_some_iff]
  constructor
  · rintro ⟨hcloses, before, after, hmarks, hbalanced⟩
    obtain ⟨first, others, rfl, rfl, hothers⟩ := List.filterMap_eq_append_iff.mp hmarks
    obtain ⟨silent, closing, rest, rfl, hsilent, hclosing, -⟩ :=
      List.filterMap_eq_cons_iff.mp hothers
    obtain ⟨hline, htoken, hbrace⟩ := LineToken.mark?_eq_some_iff.mp hclosing
    rw [hcloses] at hbrace
    have hmark : mark = ⟨closing.line, closing.token, .closing⟩ := by
      rw [← hline, ← htoken, ← hcloses]
    refine ⟨first ++ silent, closing, firstExcess_iff_balanced.mpr ⟨⟨rest, ?_⟩, ?_, ?_⟩, hmark⟩
    · rw [List.append_assoc]
    · exact Token.brace?_eq_some_iff.mp hbrace
    · rw [List.filterMap_append, List.filterMap_eq_nil_iff.mpr hsilent, List.append_nil]
      exact hbalanced
  · rintro ⟨inside, closing, h, rfl⟩
    obtain ⟨⟨rest, rfl⟩, hcloses, hbalanced⟩ := firstExcess_iff_balanced.mp h
    refine ⟨rfl, inside.filterMap LineToken.mark?, rest.filterMap LineToken.mark?, ?_, hbalanced⟩
    rw [List.filterMap_append,
      List.filterMap_cons_some (LineToken.mark?_of_isMark .closing hcloses)]

end Excess

/-! ## Nested pairs -/

/-- **The braces among the tokens are nested in pairs.** -/
inductive NestedBraces : List LineToken → Prop where
  | nil : NestedBraces []
  /-- Other tokens have no part in it. -/
  | other {x : LineToken} {tokens : List LineToken} (hopens : ¬ x.token.IsMark '{')
      (hcloses : ¬ x.token.IsMark '}') (h : NestedBraces tokens) : NestedBraces (x :: tokens)
  | pair {opening closing : LineToken} {inside after : List LineToken}
      (hopens : opening.token.IsMark '{') (hcloses : closing.token.IsMark '}')
      (hinside : NestedBraces inside) (hafter : NestedBraces after) :
      NestedBraces (opening :: (inside ++ closing :: after))

section Nested

variable {tokens : List LineToken}

/-- Nested braces are balanced. -/
theorem NestedBraces.balanced (h : NestedBraces tokens) :
    Balanced (tokens.filterMap LineToken.mark?) := by
  induction h with
  | nil => rfl
  | @other x tokens hopens hcloses h ih =>
    rwa [List.filterMap_cons_none (LineToken.mark?_eq_none hopens hcloses)]
  | @pair opening closing inside after hopens hcloses hinside hafter ihInside ihAfter =>
    rw [Balanced, List.filterMap_cons_some (LineToken.mark?_of_isMark .opening hopens),
      depthAfter?_opening rfl, List.filterMap_append, depthAfter?_append,
      depthAfter?_add ihInside 1, Option.bind_some,
      List.filterMap_cons_some (LineToken.mark?_of_isMark .closing hcloses),
      depthAfter?_closing_succ rfl]
    exact ihAfter

/-- Where one brace more is closed than opened, there is a first excess, and what follows it is
balanced again. -/
theorem exists_firstExcess_of_depthAfter?
    (h : depthAfter? 1 (tokens.filterMap LineToken.mark?) = some 0) :
    ∃ inside closing after, tokens = inside ++ closing :: after ∧ closing.token.IsMark '}' ∧
      Balanced (inside.filterMap LineToken.mark?) ∧
      Balanced (after.filterMap LineToken.mark?) := by
  cases hmatching : matching? 0 (tokens.filterMap LineToken.mark?) with
  | none =>
    obtain ⟨final, hfinal⟩ := exists_depthAfter?_of_matching? hmatching
    have hopen := depthAfter?_add hfinal 1
    rw [Nat.zero_add, h] at hopen
    cases hopen
  | some mark =>
    obtain ⟨inside, closing, hexcess, -⟩ := matching?_eq_some_iff_firstExcess.mp hmatching
    obtain ⟨⟨after, rfl⟩, hcloses, hinside⟩ := firstExcess_iff_balanced.mp hexcess
    refine ⟨inside, closing, after, rfl, hcloses, hinside, ?_⟩
    rw [List.filterMap_append, depthAfter?_append, depthAfter?_add hinside 1, Option.bind_some,
      List.filterMap_cons_some (LineToken.mark?_of_isMark .closing hcloses),
      depthAfter?_closing_succ rfl] at h
    exact h

/-- Balanced braces are nested: the first one opens a pair, which the first excess behind it
closes. -/
theorem nestedBraces_of_balanced (h : Balanced (tokens.filterMap LineToken.mark?)) :
    NestedBraces tokens := by
  -- by the length: what is in the pair and what is behind it are both shorter
  induction hn : tokens.length using Nat.strongRecOn generalizing tokens with
  | _ n ih =>
    cases tokens with
    | nil => exact .nil
    | cons x tokens =>
      rw [List.length_cons] at hn
      by_cases hopens : x.token.IsMark '{'
      · rw [Balanced, List.filterMap_cons_some (LineToken.mark?_of_isMark .opening hopens),
          depthAfter?_opening rfl] at h
        obtain ⟨inside, closing, after, rfl, hcloses, hinside, hafter⟩ :=
          exists_firstExcess_of_depthAfter? h
        rw [List.length_append, List.length_cons] at hn
        exact .pair hopens hcloses (ih inside.length (by omega) hinside rfl)
          (ih after.length (by omega) hafter rfl)
      · by_cases hcloses : x.token.IsMark '}'
        · rw [Balanced, List.filterMap_cons_some (LineToken.mark?_of_isMark .closing hcloses),
            depthAfter?_closing_zero rfl] at h
          cases h
        · rw [List.filterMap_cons_none (LineToken.mark?_eq_none hopens hcloses)] at h
          exact .other hopens hcloses (ih tokens.length (by omega) h rfl)

/-- **Braces are nested in pairs exactly if no beginning closes more than it opens, and all of them
close as much as they open.** -/
theorem nestedBraces_iff_count :
    NestedBraces tokens ↔
      (∀ seen, seen <+: tokens → count '}' seen ≤ count '{' seen) ∧
        count '}' tokens = count '{' tokens := by
  rw [← balanced_iff_count]
  exact ⟨NestedBraces.balanced, nestedBraces_of_balanced⟩

end Nested

/-! ## The last opening brace of a line -/

section Tokens

variable {n i : Nat} {lines : List Line} {line : Line} {x : LineToken}

theorem le_line_of_mem_tokensFrom (h : x ∈ tokensFrom n lines) : n ≤ x.line := by
  induction lines generalizing n with
  | nil => cases h
  | cons line lines ih =>
    rcases List.mem_append.mp h with hmem | hmem
    · obtain ⟨t, -, rfl⟩ := List.mem_map.mp hmem
      exact Nat.le_refl n
    · exact Nat.le_of_succ_le (ih hmem)

/-- The tokens of a document, divided around a line. -/
theorem tokensFrom_eq_append (h : lines[i]? = some line) (n : Nat) :
    ∃ above, tokensFrom n lines =
      above ++ (line.tokens.map (LineToken.mk (n + i)) ++
        tokensFrom (n + i + 1) (lines.drop (i + 1))) := by
  induction lines generalizing n i with
  | nil => cases h
  | cons first lines ih =>
    cases i with
    | zero =>
      obtain rfl := Option.some.inj h
      exact ⟨[], rfl⟩
    | succ i =>
      obtain ⟨above, habove⟩ := ih h (n + 1)
      refine ⟨first.tokens.map (LineToken.mk n) ++ above, ?_⟩
      have hnumber : n + (i + 1) = n + 1 + i := by omega
      rw [tokensFrom, habove, List.append_assoc, hnumber, List.drop_succ_cons]

/-- Conversely, where the tokens are divided at one of them, it stands on a line, which is divided
there too. -/
theorem exists_line_of_tokensFrom {before behind : List LineToken}
    (h : tokensFrom n lines = before ++ x :: behind) :
    ∃ i line first others, lines[i]? = some line ∧ x.line = n + i ∧
      line.tokens = first ++ x.token :: others ∧
      behind = others.map (LineToken.mk (n + i)) ++
        tokensFrom (n + i + 1) (lines.drop (i + 1)) := by
  induction lines generalizing n before with
  | nil => cases before <;> cases h
  | cons line lines ih =>
    rw [tokensFrom] at h
    rcases List.append_eq_append_iff.mp h with ⟨above, -, hrest⟩ | ⟨others, hline, hbehind⟩
    · -- it stands on a later line
      obtain ⟨i, found, first, others, hfound, hnumber, htokens, hbehind⟩ := ih hrest
      have hsucc : n + 1 + i = n + (i + 1) := by omega
      rw [hsucc] at hnumber hbehind
      exact ⟨i + 1, found, first, others, hfound, hnumber, htokens, hbehind⟩
    · cases others with
      | nil =>
        -- it is the first one behind the line
        have hlater : tokensFrom (n + 1) lines = [] ++ x :: behind := hbehind.symm
        obtain ⟨i, found, first, others, hfound, hnumber, htokens, hbehind⟩ := ih hlater
        have hsucc : n + 1 + i = n + (i + 1) := by omega
        rw [hsucc] at hnumber hbehind
        exact ⟨i + 1, found, first, others, hfound, hnumber, htokens, hbehind⟩
      | cons y others =>
        obtain ⟨rfl, rfl⟩ := List.cons.inj hbehind
        obtain ⟨first, rest, htokens, -, hrest⟩ := List.map_eq_append_iff.mp hline
        obtain ⟨t, after, rfl, rfl, rfl⟩ := List.map_eq_cons_iff.mp hrest
        exact ⟨0, line, first, after, rfl, rfl, htokens, rfl⟩

end Tokens

/-- **The last opening brace of line `i`**, with all tokens of the document behind it. -/
structure OpensLast (doc : Document) (i : Nat) (opening : Token) (behind : List LineToken) :
    Prop where
  split : ∃ before, doc.allTokens = before ++ ⟨i, opening⟩ :: behind
  opens : opening.IsMark '{'
  last : ∀ x ∈ behind, x.line = i → ¬ x.token.IsMark '{'

section Fold

variable {doc : Document} {i : Nat} {opening : Token} {behind : List LineToken}

theorem OpensLast.le_line (h : doc.OpensLast i opening behind) : ∀ x ∈ behind, i ≤ x.line := by
  obtain ⟨before, hsplit⟩ := h.split
  obtain ⟨j, line, first, others, -, hnumber, -, rfl⟩ := exists_line_of_tokensFrom hsplit
  rw [Nat.zero_add] at hnumber
  obtain rfl : i = j := hnumber
  intro x hx
  rcases List.mem_append.mp hx with hmem | hmem
  · obtain ⟨t, -, rfl⟩ := List.mem_map.mp hmem
    show i ≤ 0 + i
    omega
  · have := le_line_of_mem_tokensFrom hmem
    omega

theorem OpensLast.lastOpening (h : doc.OpensLast i opening behind) :
    doc.LastOpening i opening := by
  obtain ⟨before, hsplit⟩ := h.split
  obtain ⟨j, line, first, others, hline, hnumber, htokens, rfl⟩ :=
    exists_line_of_tokensFrom hsplit
  rw [Nat.zero_add] at hnumber
  obtain rfl : i = j := hnumber
  refine ⟨line, first, others, hline, htokens, Token.brace?_eq_some_iff.mpr h.opens, ?_⟩
  intro t ht hbrace
  refine h.last ⟨i, t⟩ ?_ rfl (Token.brace?_eq_some_iff.mp hbrace)
  rw [Nat.zero_add]
  exact List.mem_append_left _ (List.mem_map_of_mem ht)

theorem LastOpening.exists_opensLast (h : doc.LastOpening i opening) :
    ∃ behind, doc.OpensLast i opening behind := by
  obtain ⟨line, first, others, hline, htokens, hopens, hlast⟩ := h
  obtain ⟨above, habove⟩ := tokensFrom_eq_append hline 0
  rw [Nat.zero_add, htokens, List.map_append, List.map_cons] at habove
  refine ⟨others.map (LineToken.mk i) ++ tokensFrom (i + 1) (doc.lines.drop (i + 1)),
    ⟨above ++ first.map (LineToken.mk i), ?_⟩, Token.brace?_eq_some_iff.mp hopens, ?_⟩
  · rw [allTokens, habove]
    simp
  · intro x hx hxline hbrace
    rcases List.mem_append.mp hx with hmem | hmem
    · obtain ⟨t, ht, rfl⟩ := List.mem_map.mp hmem
      exact hlast t ht (Token.brace?_eq_some_iff.mpr hbrace)
    · have := le_line_of_mem_tokensFrom hmem
      omega

/-- The search for the fold of a line goes through the tokens behind its last opening brace. -/
theorem OpensLast.foldAt?_eq (hdoc : Divided doc.lines) (h : doc.OpensLast i opening behind) :
    doc.foldAt? i = (matching? 0 (behind.filterMap LineToken.mark?)).bind fun closing =>
      if closing.line = i then none else some ⟨⟨i, opening.stop⟩, closing.place⟩ := by
  obtain ⟨marks, found, hbraces, hfold⟩ := h.lastOpening.foldAt?_eq
  obtain ⟨before, hsplit⟩ := h.split
  have hopens : (⟨i, opening⟩ : LineToken).mark? = some ⟨i, opening, .opening⟩ :=
    LineToken.mark?_of_isMark .opening h.opens
  have hbraces' : doc.braces =
      before.filterMap LineToken.mark? ++
        ⟨i, opening, .opening⟩ :: behind.filterMap LineToken.mark? := by
    rw [braces, bracesFrom_eq_filterMap, ← allTokens, hsplit, List.filterMap_append,
      List.filterMap_cons_some hopens]
  obtain ⟨-, rfl⟩ := append_cons_inj (pairwise_bracesFrom hdoc) hbraces hbraces'
  exact hfold

/-- **The fold of a line ends at the first excess behind its last opening brace.** -/
theorem foldAt?_eq_some_iff (hdoc : Divided doc.lines) {fold : Fold} :
    doc.foldAt? i = some fold ↔
      ∃ opening behind inside closing, doc.OpensLast i opening behind ∧
        FirstExcess behind inside closing ∧ i < closing.line ∧
        fold = ⟨⟨i, opening.stop⟩, ⟨closing.line, closing.token.start⟩⟩ := by
  constructor
  · intro h
    obtain ⟨opening, hlast⟩ := exists_lastOpening_of_foldAt? h
    obtain ⟨behind, hopens⟩ := hlast.exists_opensLast
    rw [hopens.foldAt?_eq hdoc] at h
    obtain ⟨mark, hmatching, h⟩ := Option.bind_eq_some_iff.mp h
    obtain ⟨inside, closing, hexcess, rfl⟩ := matching?_eq_some_iff_firstExcess.mp hmatching
    obtain ⟨rest, hbehind⟩ := hexcess.split
    have hle := hopens.le_line closing (hbehind ▸ List.mem_append_right _ List.mem_cons_self)
    split at h
    · cases h
    · rename_i hline
      have hlt : i < closing.line := Nat.lt_of_le_of_ne hle fun heq => hline heq.symm
      exact ⟨opening, behind, inside, closing, hopens, hexcess, hlt, (Option.some.inj h).symm⟩
  · rintro ⟨opening, behind, inside, closing, hopens, hexcess, hlt, rfl⟩
    have hmatching := matching?_eq_some_iff_firstExcess.mpr ⟨inside, closing, hexcess, rfl⟩
    rw [hopens.foldAt?_eq hdoc, hmatching, Option.bind_some, if_neg]
    · rfl
    · show closing.line ≠ i
      omega

end Fold

/-! ## Braces that do not count -/

/-- Two tokens of a line do not overlap. -/
theorem stop_le_start_of_tile {start stop : Nat} {tokens : List Token} {t u : Token}
    (h : Token.Tile start tokens stop) (ht : t ∈ tokens) (hu : u ∈ tokens) (hne : t ≠ u) :
    t.stop ≤ u.start ∨ u.stop ≤ t.start := by
  induction tokens generalizing start with
  | nil => cases ht
  | cons v tokens ih =>
    obtain ⟨-, -, htail⟩ := h
    obtain ⟨-, hbehind⟩ := le_start_of_tile htail
    rcases List.mem_cons.mp ht with rfl | ht'
    · rcases List.mem_cons.mp hu with rfl | hu'
      · exact absurd rfl hne
      · exact .inl (hbehind u hu')
    · rcases List.mem_cons.mp hu with rfl | hu'
      · exact .inr (hbehind t ht')
      · exact ih htail ht' hu'

theorem le_start_of_mem_place {n : Nat} {pieces : List (Category × Text)} {t : Token}
    (h : t ∈ Token.place n pieces) : n ≤ t.start := by
  induction pieces generalizing n with
  | nil => cases h
  | cons piece pieces ih =>
    rcases List.mem_cons.mp h with rfl | h
    · exact Nat.le_refl n
    · have := ih h
      omega

/-- On a line that goes on with a construct, punctuation stands behind the end of the construct. -/
theorem le_start_of_resumed {config : Config} {st final : State} {w rest : Text}
    {tokens : List Token} {k : Construct} {after : Option Construct}
    (h : st.tokenizeLine config (w ++ rest) = .ok (tokens, final)) (hpending : st.pending = some k)
    (hw : k.Extent w rest after) {t : Token} (ht : t ∈ tokens)
    (hcategory : t.category = .punctuation) : Text.byteLength w ≤ t.start := by
  by_cases hnil : w = []
  · rw [hnil]
    exact Nat.zero_le _
  obtain ⟨pieces, rfl, hpieces⟩ := State.segmentation_of_tokenizeLine h
  rw [hpending] at hpieces
  have hresumed : Lexeme config.extraAtoms (some k) w rest k.category after := .resumed hnil hw
  generalize hline : w ++ rest = line at hpieces
  generalize final.pending = behind at hpieces
  cases hpieces with
  | done => exact absurd (List.append_eq_nil_iff.mp hline).1 hnil
  | lexeme first others =>
    obtain ⟨rfl, rfl, rfl, rfl⟩ := hresumed.unique first hline
    rcases List.mem_cons.mp ht with rfl | ht
    · cases k <;> cases hcategory
    · have := le_start_of_mem_place ht
      omega

/-- **A fold ends at the first excess of closing braces.**  Take any document.

* A line has a fold exactly if there is an opening brace on it and, among the tokens of the document
  behind the last one, there is a first closing brace with which more braces have been closed than
  opened, and this brace stands on a later line.  The fold reaches from the end of the one to the
  start of the other.
* The braces that stand between the two are nested in pairs.
* A brace that counts stands apart from every token that is not punctuation.  On a line that goes on
  with a string or a comment, it stands behind the end of this. -/
theorem fold_ends_at_first_excess {config : Config} {text : Text} {doc : Document}
    (h : highlight config text = .ok doc) :
    (∀ i fold, doc.foldAt? i = some fold ↔
      ∃ opening behind inside closing, doc.OpensLast i opening behind ∧
        FirstExcess behind inside closing ∧ i < closing.line ∧
        fold = ⟨⟨i, opening.stop⟩, ⟨closing.line, closing.token.start⟩⟩) ∧
    (∀ behind inside closing, FirstExcess behind inside closing → NestedBraces inside) ∧
    ∀ j line brace, doc.lines[j]? = some line → brace ∈ line.tokens →
      brace.IsMark '{' ∨ brace.IsMark '}' →
      (∀ t ∈ line.tokens, t.category ≠ .punctuation →
        t.stop ≤ brace.start ∨ brace.stop ≤ t.start) ∧
      ∀ before k w rest after, doc.stateBefore? j = some before → before.pending = some k →
        line.text = w ++ rest → k.Extent w rest after → Text.byteLength w ≤ brace.start := by
  have hdoc := divided_of_highlight h
  refine ⟨fun i fold => foldAt?_eq_some_iff hdoc, fun behind inside closing hexcess => ?_, ?_⟩
  · exact nestedBraces_iff_count.mpr ⟨hexcess.first, hexcess.count_eq⟩
  · intro j line brace hline hbrace hmark
    have hcategory : brace.category = .punctuation := by
      rcases hmark with hmark | hmark
      · exact hmark.1
      · exact hmark.1
    constructor
    · intro t ht hother
      have hne : t ≠ brace := by
        rintro rfl
        exact hother hcategory
      exact stop_le_start_of_tile (hdoc line (List.mem_of_getElem? hline)).tile ht hbrace hne
    · intro before k w rest after hbefore hpending htext hw
      obtain ⟨lines, hlines, hdocument⟩ := Fault.bind_eq_ok.mp h
      obtain rfl := Fault.pure_eq_ok.mp hdocument
      have hread := tokenizeLine_of_readLines hlines hbefore hline
      rw [htext] at hread
      exact le_start_of_resumed hread hpending hw hbrace hcategory

/-- Of the two braces that line 0 opens, the last one makes its fold.  Line 1 opens and closes one
more, and has a brace in a string and one in a comment; so has line 2 in the rest of this comment,
behind which the fold ends. -/
theorem fold_ends_at_first_excess_commented :
    let text : Text := ("a \x7b b \x7b\n" ++ "c \x7b \"\x7d\" \x7d /* \x7d\n" ++
      " \x7d */ \x7d\n" ++ "\x7d").toList
    let brace : Token := ⟨.punctuation, 6, ['}']⟩
    ∃ doc line before, highlight {} text = .ok doc ∧
      doc.foldAt? 0 = some ⟨⟨0, 7⟩, ⟨2, 6⟩⟩ ∧ doc.foldAt? 1 = none ∧
      (∃ opening behind inside closing, doc.OpensLast 0 opening behind ∧
        FirstExcess behind inside closing ∧ 0 < closing.line ∧
        Fold.mk ⟨0, 7⟩ ⟨2, 6⟩ = ⟨⟨0, opening.stop⟩, ⟨closing.line, closing.token.start⟩⟩ ∧
        NestedBraces inside) ∧
      doc.lines[2]? = some line ∧ doc.stateBefore? 2 = some before ∧
      before.pending = some .blockComment ∧ brace ∈ line.tokens ∧
      Construct.blockComment.Extent " \x7d */".toList " \x7d".toList none ∧
      Text.byteLength " \x7d */".toList ≤ brace.start := by
  intro text brace
  obtain ⟨doc, hdoc, hfold, hnone, hline, hbefore⟩ := Fault.exists_eq_ok_of_any
    (x := highlight {} text)
    (p := fun doc => doc.foldAt? 0 = some ⟨⟨0, 7⟩, ⟨2, 6⟩⟩ ∧ doc.foldAt? 1 = none ∧
      (doc.lines[2]?.any fun line => brace ∈ line.tokens ∧
        line.text = " \x7d */".toList ++ " \x7d".toList) ∧
      (doc.stateBefore? 2).any fun before => before.pending = some .blockComment)
    (by decide +kernel)
  simp only [Option.any_eq_true, decide_eq_true_eq] at hline hbefore
  obtain ⟨line, hline, hbrace, htext⟩ := hline
  obtain ⟨before, hbefore, hpending⟩ := hbefore
  obtain ⟨hfolds, hnested, hcount⟩ := fold_ends_at_first_excess hdoc
  obtain ⟨opening, behind, inside, closing, hopens, hexcess, hlt, heq⟩ := (hfolds 0 _).mp hfold
  have hextent : Construct.blockComment.Extent " \x7d */".toList " \x7d".toList none := by
    have hstar : Construct.closingStar? 0 (" \x7d */".toList ++ " \x7d".toList) = some 5 := by
      decide +kernel
    obtain ⟨w, rest, hsplit, hlength, hw⟩ := Construct.exists_of_closingStar? hstar
    rw [Nat.zero_add] at hlength
    obtain ⟨rfl, rfl⟩ := List.append_inj hsplit hlength
    exact .closed hw
  obtain ⟨-, hresumed⟩ := hcount 2 line brace hline hbrace (.inr ⟨rfl, rfl⟩)
  exact ⟨doc, line, before, hdoc, hfold, hnone,
    ⟨opening, behind, inside, closing, hopens, hexcess, hlt, heq, hnested _ _ _ hexcess⟩,
    hline, hbefore, hpending, hbrace, hextent,
    hresumed before _ _ _ _ hbefore hpending htext hextent⟩

end Document
end EditorMode
