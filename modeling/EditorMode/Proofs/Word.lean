import EditorMode.Proofs.Alphabet

/-! # The categories of bare words

The category of a bare word is found by trying rules in order.  `HasCategory` says which words each
category has, rule by rule and without an order: what a rule leaves to those before it is among its
conditions.  Every word has the category that is found, and no other
(`hasCategory_category`, `category_of_hasCategory`). -/

namespace EditorMode
namespace Word

/-- The categories of bare words, each with the words that have it. -/
inductive HasCategory (extraAtoms : WordSet) : Text → Category → Prop where
  | anonymous : HasCategory extraAtoms ['_'] .anonymousVariable
  | singleton {others : Text} (hne : others ≠ []) :
      HasCategory extraAtoms ('_' :: others) .namedSingleton
  | named {initial : Char} {others : Text} (hupper : initial ∈ Alphabet.upperCase) :
      HasCategory extraAtoms (initial :: others) .namedVariable
  /-- A configured word is an atom, even if it is reserved. -/
  | extra {initial : Char} {others : Text} (hunder : initial ≠ '_')
      (hupper : initial ∉ Alphabet.upperCase)
      (hmem : initial :: others ∈ extraAtoms) : HasCategory extraAtoms (initial :: others) .atom
  | keyword {w : String} (hw : w ∈ ["about", "main", "is"]) (hmem : w.toList ∉ extraAtoms) :
      HasCategory extraAtoms w.toList .keyword
  | builtin {w : String} (hw : w ∈ ["load", "store"]) (hmem : w.toList ∉ extraAtoms) :
      HasCategory extraAtoms w.toList .builtin
  /-- Any other word is an atom, too. -/
  | atom {initial : Char} {others : Text} (hunder : initial ≠ '_')
      (hupper : initial ∉ Alphabet.upperCase)
      (hword : ∀ w ∈ ["about", "main", "is", "load", "store"], initial :: others ≠ w.toList) :
      HasCategory extraAtoms (initial :: others) .atom

theorem HasCategory.ne_punctuation {extraAtoms : WordSet} {w : Text} {c : Category}
    (h : HasCategory extraAtoms w c) : c ≠ .punctuation := by
  rintro rfl
  cases h

section Category

variable {extraAtoms : WordSet} {initial : Char} {others : Text}

theorem category_of_isUpper (hupper : initial.isUpper) :
    category extraAtoms (initial :: others) = .namedVariable := by
  have hunder : initial ≠ '_' := by
    rintro rfl
    exact absurd hupper (by decide)
  rw [category]
  · rw [if_pos hupper]
  · rintro rfl _
    exact hunder rfl
  · exact hunder

/-- A word that begins neither like a variable nor like a singleton has the category of the first
list that it stands in. -/
theorem category_of_not_isUpper (hunder : initial ≠ '_') (hupper : ¬ initial.isUpper) :
    category extraAtoms (initial :: others) =
      if initial :: others ∈ extraAtoms then .atom else reservedCategory (initial :: others) := by
  rw [category]
  · rw [if_neg hupper]
  · rintro rfl _
    exact hunder rfl
  · exact hunder

end Category

/-! ## Reserved words -/

theorem contains_keywords {t : Text} :
    keywords.contains t ↔ ∃ w ∈ ["about", "main", "is"], w.toList = t := by
  rw [List.contains_iff_mem, keywords, List.mem_map]

theorem contains_builtins {t : Text} :
    builtins.contains t ↔ ∃ w ∈ ["load", "store"], w.toList = t := by
  rw [List.contains_iff_mem, builtins, List.mem_map]

/-- A word that stands in neither list is not reserved. -/
theorem reservedCategory_eq_atom {t : Text}
    (h : ∀ w ∈ ["about", "main", "is", "load", "store"], t ≠ w.toList) :
    reservedCategory t = .atom := by
  have hkeyword : ¬ keywords.contains t := by
    intro hcontains
    obtain ⟨w, hw, heq⟩ := contains_keywords.mp hcontains
    exact h w (List.mem_append_left ["load", "store"] hw) heq.symm
  have hbuiltin : ¬ builtins.contains t := by
    intro hcontains
    obtain ⟨w, hw, heq⟩ := contains_builtins.mp hcontains
    exact h w (List.mem_append_right ["about", "main", "is"] hw) heq.symm
  rw [reservedCategory, if_neg hkeyword, if_neg hbuiltin]

/-- No reserved word begins like a variable or a singleton. -/
theorem category_of_reserved {extraAtoms : WordSet} {w : String}
    (hw : w ∈ ["about", "main", "is", "load", "store"]) (hmem : w.toList ∉ extraAtoms) :
    category extraAtoms w.toList = reservedCategory w.toList := by
  simp only [List.mem_cons, List.not_mem_nil, or_false] at hw
  rcases hw with rfl | rfl | rfl | rfl | rfl
  all_goals
    rw [String.toList_ofList] at hmem ⊢
    rw [category_of_not_isUpper (by decide) (by decide), if_neg hmem]

/-! ## The category that is found -/

/-- **Every word has the category that is found for it.** -/
theorem hasCategory_category (extraAtoms : WordSet) (initial : Char) (others : Text) :
    HasCategory extraAtoms (initial :: others) (category extraAtoms (initial :: others)) := by
  by_cases hunder : initial = '_'
  · subst hunder
    cases others with
    | nil => exact .anonymous
    | cons c others => exact .singleton (List.cons_ne_nil c others)
  by_cases hupper : initial.isUpper
  · rw [category_of_isUpper hupper]
    exact .named (Alphabet.isUpper_iff.mp hupper)
  have hlower : initial ∉ Alphabet.upperCase := mt Alphabet.isUpper_iff.mpr hupper
  rw [category_of_not_isUpper hunder hupper]
  by_cases hmem : initial :: others ∈ extraAtoms
  · rw [if_pos hmem]
    exact .extra hunder hlower hmem
  rw [if_neg hmem, reservedCategory]
  by_cases hkeyword : keywords.contains (initial :: others)
  · rw [if_pos hkeyword]
    obtain ⟨w, hw, heq⟩ := contains_keywords.mp hkeyword
    rw [← heq] at hmem ⊢
    exact .keyword hw hmem
  rw [if_neg hkeyword]
  by_cases hbuiltin : builtins.contains (initial :: others)
  · rw [if_pos hbuiltin]
    obtain ⟨w, hw, heq⟩ := contains_builtins.mp hbuiltin
    rw [← heq] at hmem ⊢
    exact .builtin hw hmem
  rw [if_neg hbuiltin]
  refine .atom hunder hlower fun w hw heq => ?_
  rcases List.mem_append.mp (show w ∈ ["about", "main", "is"] ++ ["load", "store"] from hw) with
    hw | hw
  · exact hkeyword (contains_keywords.mpr ⟨w, hw, heq.symm⟩)
  · exact hbuiltin (contains_builtins.mpr ⟨w, hw, heq.symm⟩)

/-- **No word has another category.** -/
theorem category_of_hasCategory {extraAtoms : WordSet} {w : Text} {c : Category}
    (h : HasCategory extraAtoms w c) : category extraAtoms w = c := by
  cases h with
  | anonymous => rfl
  | @singleton others hne =>
    cases others with
    | nil => exact absurd rfl hne
    | cons d others => rfl
  | named hupper => exact category_of_isUpper (Alphabet.isUpper_iff.mpr hupper)
  | extra hunder hupper hmem =>
    rw [category_of_not_isUpper hunder (mt Alphabet.isUpper_iff.mp hupper), if_pos hmem]
  | @keyword w hw hmem =>
    rw [category_of_reserved (List.mem_append_left ["load", "store"] hw) hmem, reservedCategory,
      if_pos (contains_keywords.mpr ⟨w, hw, rfl⟩)]
  | @builtin w hw hmem =>
    have hkeyword : ¬ keywords.contains w.toList := by
      simp only [List.mem_cons, List.not_mem_nil, or_false] at hw
      rcases hw with rfl | rfl
      · decide
      · decide
    rw [category_of_reserved (List.mem_append_right ["about", "main", "is"] hw) hmem,
      reservedCategory, if_neg hkeyword, if_pos (contains_builtins.mpr ⟨w, hw, rfl⟩)]
  | @atom initial others hunder hupper hword =>
    rw [category_of_not_isUpper hunder (mt Alphabet.isUpper_iff.mp hupper),
      reservedCategory_eq_atom hword]
    split
    · rfl
    · rfl

end Word
end EditorMode
