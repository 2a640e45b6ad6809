import EditorMode.Proofs.Segmentation

/-! # The opening of a line

A line is divided into its **opening**, which is the blanks at its beginning or what is resumed
there, and what follows.  Blanks that are put in front of a line belong to its opening, whatever
they are: a blank closes no construct, as long as no string has it for a quote
(`Construct.Extent.blanks`).  What follows the opening is the same text as before
(`exists_opening`). -/

namespace EditorMode

theorem Text.trailingBackslashes_cons_of_ne {c : Char} (hc : c ≠ '\\') (t : Text) :
    trailingBackslashes (c :: t) = trailingBackslashes t := by
  rw [trailingBackslashes, trailingBackslashes, List.reverse_cons, List.takeWhile_append]
  split
  · rename_i hlength
    rw [List.length_append, ← hlength, List.takeWhile_cons_of_neg (by simpa using hc)]
    rfl
  · rfl

/-! ## Blanks in front of a construct -/

namespace Construct

variable {k : Construct} {c : Char} {v w rest : Text} {after : Option Construct}

/-- A blank has no part in what closes a construct, unless it is the quote of a string. -/
theorem closes_blank (hblank : Text.isBlank c) (hk : k ≠ .string c) :
    k.Closes (c :: w) ↔ k.Closes w := by
  cases k with
  | blockComment =>
    rw [closes_comment_cons, or_iff_right]
    rintro ⟨rfl, -⟩
    exact absurd hblank (by decide)
  | string quote =>
    have hbackslash : c ≠ '\\' := by
      rintro rfl
      exact absurd hblank (by decide)
    constructor
    · rintro ⟨body, hbody, heven⟩
      cases body with
      | nil =>
        obtain ⟨hquote, -⟩ := List.cons.inj hbody
        exact absurd (congrArg string hquote.symm) hk
      | cons d body =>
        obtain ⟨rfl, hw⟩ := List.cons.inj hbody
        rw [Text.trailingBackslashes_cons_of_ne hbackslash] at heven
        exact ⟨body, hw, heven⟩
    · rintro ⟨body, rfl, heven⟩
      refine ⟨c :: body, rfl, ?_⟩
      rwa [Text.trailingBackslashes_cons_of_ne hbackslash]

theorem RunsThrough.blank (hblank : Text.isBlank c) (hk : k ≠ .string c) (h : k.RunsThrough w) :
    k.RunsThrough (c :: w) := by
  refine ⟨(closes_blank hblank hk).mpr h.1, fun v hv hcloses => ?_⟩
  rcases List.prefix_cons_iff.mp hv with rfl | ⟨u, rfl, hu⟩
  · exact absurd hcloses (not_closes_nil k)
  · rw [h.2 u hu ((closes_blank hblank hk).mp hcloses)]

theorem StaysOpen.blank (hblank : Text.isBlank c) (hk : k ≠ .string c) (h : k.StaysOpen w) :
    k.StaysOpen (c :: w) := by
  intro v hv hcloses
  rcases List.prefix_cons_iff.mp hv with rfl | ⟨u, rfl, hu⟩
  · exact not_closes_nil k hcloses
  · exact h u hu ((closes_blank hblank hk).mp hcloses)

/-- **A construct that is resumed reaches as far behind blanks.** -/
theorem Extent.blanks (hv : ∀ c ∈ v, Text.isBlank c ∧ k ≠ .string c) (h : k.Extent w rest after) :
    k.Extent (v ++ w) rest after := by
  induction v with
  | nil => exact h
  | cons c v ih =>
    obtain ⟨⟨hblank, hk⟩, hothers⟩ := List.forall_mem_cons.mp hv
    rw [List.cons_append]
    cases ih hothers with
    | closed hw => exact .closed (hw.blank hblank hk)
    | unfinished hopen => exact .unfinished (hopen.blank hblank hk)

/-- The category of what a line opens with: of what is pending, or of blanks. -/
def openingCategory : Option Construct → Category
  | none => .unstyled
  | some k => k.category

/-- No opening is punctuation. -/
theorem mark?_openingCategory (pending : Option Construct) (w : Text) :
    Lexeme.mark? (openingCategory pending) w = none := by
  cases pending with
  | none => rfl
  | some k =>
    cases k with
    | string quote => rfl
    | blockComment => rfl

end Construct

/-! ## Openings -/

/-- Blanks in front of a line belong to its indentation. -/
theorem Text.leadingBlank_append {v : Text} (hv : ∀ c ∈ v, isBlank c) (t : Text) :
    leadingBlank (v ++ t) = v ++ leadingBlank t :=
  List.takeWhile_append_of_pos hv

/-- **The opening of a line** may be empty, unless it is resumed.  Blanks in front of the line
belong to it, and what follows is the same. -/
theorem exists_opening (extraAtoms : WordSet) (pending : Option Construct) (t : Text) :
    ∃ w rest after, t = w ++ rest ∧
      (∀ v, v ≠ [] → (∀ c ∈ v, Text.isBlank c ∧ pending ≠ some (.string c)) →
        Lexeme extraAtoms pending (v ++ w) rest (Construct.openingCategory pending) after) ∧
      ((w = [] ∧ after = pending) ∨
        Lexeme extraAtoms pending w rest (Construct.openingCategory pending) after) := by
  cases pending with
  | none =>
    obtain ⟨w, rest, rfl, hrun⟩ := Text.exists_maximalRun Alphabet.blanks.contains t
    refine ⟨w, rest, none, rfl, fun v hne hv => ?_, ?_⟩
    · refine .blank (List.append_ne_nil_of_left_ne_nil hne w) ⟨fun c hc => ?_, hrun.ends⟩
      rcases List.mem_append.mp hc with hc | hc
      · exact List.contains_iff_mem.mpr (Alphabet.isBlank_iff.mp (hv c hc).1)
      · exact hrun.all c hc
    · by_cases hnil : w = []
      · exact .inl ⟨hnil, rfl⟩
      · exact .inr (.blank hnil hrun)
  | some k =>
    obtain ⟨w, rest, after, rfl, h⟩ := k.exists_extent t
    refine ⟨w, rest, after, rfl, fun v hne hv => ?_, ?_⟩
    · have hquote : ∀ c ∈ v, Text.isBlank c ∧ k ≠ .string c := by
        intro c hc
        obtain ⟨hblank, hk⟩ := hv c hc
        exact ⟨hblank, fun heq => hk (congrArg some heq)⟩
      exact .resumed (List.append_ne_nil_of_left_ne_nil hne w) (h.blanks hquote)
    · by_cases hnil : w = []
      · cases h with
        | closed hw => exact absurd hnil hw.ne_nil
        | unfinished hopen => exact .inl ⟨hnil, rfl⟩
      · exact .inr (.resumed hnil h)

end EditorMode
