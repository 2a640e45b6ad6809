import EditorMode.Proofs.ConfigForms

/-! # The texts of a configuration

A text is read as the configuration that it writes, in any spelling of any form, and it is refused
as malformed exactly if it writes none (`Config.fromJson_of_written`).  Whether the configuration
passes the check is asked only then.  An object with a key twice, or with a key that no field has,
writes no configuration, whatever stands behind its keys.

Of several invalid atoms the check tells the one that is met first, and nothing is assumed about the
order in which they are met.  So a configuration determines whether it passes, but only up to this
choice how it is refused: `RefusedAs` gives the errors that some order leads to. -/

namespace EditorMode.Config

open Json (Symbol Piece IsValue Spells)

/-- Whether a text writes a configuration. -/
def WrittenAs (config : Config) (text : Text) : Prop :=
  ∃ symbols, config.Form symbols ∧ Spells (symbols.map some) text

/-- Whether an object could be a configuration by its keys: each of them is the key of a field, and
none occurs twice. -/
def KnowsKeys (keys : List Text) : Prop :=
  keys.Nodup ∧ ∀ key ∈ keys, ∃ field : Field, field.key.toList = key

variable {config : Config} {field : Field} {symbols : List Symbol} {text : Text}
  {order : WordSet.Enumeration} {decoder : Decoder}

/-! ## Forms are values -/

theorem Field.Form.isValue {form : List Symbol} (h : field.Form config form) :
    IsValue (form.map some) := by
  cases h with
  | indentUnit => exact .number _
  | statementIndentUnit => exact .number _
  | unset => exact .null
  | tabSize => exact .number _
  | extraAtoms =>
    rw [Json.map_enclosed, List.map_map]
    refine .array fun v hv => ?_
    obtain ⟨w, -, rfl⟩ := List.mem_map.mp hv
    exact .string w
  | indentStyle hstyle =>
    cases hstyle with
    | name => exact .string _
    | member =>
      have hmember : ∀ m ∈ [(config.indentStyle.name.toList, [some Symbol.null])],
          IsValue m.2 := by
        simpa using IsValue.null
      exact .object hmember

/-- The pieces of a list of members as those of an object. -/
theorem map_some_object (members : List (Field × List Symbol)) :
    (Json.enclosed Symbol.objectStart .comma .objectEnd (members.map memberSymbols)).map some =
      Json.object (members.map fun m => (m.1.key.toList, m.2.map some)) := by
  rw [Json.map_enclosed, Json.object, List.map_map, List.map_map]
  rfl

theorem Form.isValue (h : config.Form symbols) : IsValue (symbols.map some) := by
  cases h with
  | object hlists =>
    rw [map_some_object]
    refine .object fun m hm => ?_
    obtain ⟨m, hmem, rfl⟩ := List.mem_map.mp hm
    exact (hlists.form m hmem).isValue
  | array hlists =>
    rw [Json.map_enclosed, List.map_map]
    refine .array fun v hv => ?_
    obtain ⟨m, hmem, rfl⟩ := List.mem_map.mp hv
    exact (hlists.form m hmem).isValue

/-! ## Reading -/

/-- **A text is read as the configuration that it writes.** -/
theorem decode?_eq_some : decode? text = some config ↔ config.Fits ∧ config.WrittenAs text := by
  constructor
  · intro h
    obtain ⟨symbols, hsymbols, h⟩ := Option.bind_eq_some_iff.mp h
    obtain ⟨hfits, hform⟩ := ofSymbols?_eq_some.mp h
    exact ⟨hfits, symbols, hform, Json.spells_of_symbols? hsymbols⟩
  · rintro ⟨hfits, symbols, hform, hspells⟩
    have hsymbols : Json.symbols? text = some symbols :=
      (hspells.symbols?_eq_some hform.isValue.numbersEnd).mpr rfl
    rw [decode?, hsymbols]
    exact ofSymbols?_eq_some.mpr ⟨hfits, hform⟩

/-- The keys of an object that is read are those of different fields. -/
theorem knowsKeys_of_decode? {members : List (Text × List Piece)}
    (hvalues : ∀ m ∈ members, IsValue m.2) (hspells : Spells (Json.object members) text)
    (h : decode? text = some config) : KnowsKeys (members.map Prod.fst) := by
  obtain ⟨symbols, hsymbols, h⟩ := Option.bind_eq_some_iff.mp h
  have hobject : Json.object members = symbols.map some :=
    (hspells.symbols?_eq_some (IsValue.object hvalues).numbersEnd).mp hsymbols
  obtain ⟨-, hform⟩ := ofSymbols?_eq_some.mp h
  cases hform with
  | @object fields hlists =>
    rw [map_some_object] at hobject
    have hkeys := congrArg (Json.keysAt 0) hobject
    rw [Json.keysAt_object hvalues, Json.keysAt_object, List.map_map] at hkeys
    · have hmap : fields.map (Prod.fst ∘ fun m => (m.1.key.toList, m.2.map some)) =
          (fields.map Prod.fst).map fun field => field.key.toList := by
        rw [List.map_map]
        rfl
      rw [hkeys, hmap]
      refine ⟨List.Pairwise.map _ (fun a b hne hkey => hne (Field.key_injective hkey))
        hlists.nodup, ?_⟩
      intro key hkey
      obtain ⟨field, -, rfl⟩ := List.mem_map.mp hkey
      exact ⟨field, rfl⟩
    · intro m hm
      obtain ⟨m, hmem, rfl⟩ := List.mem_map.mp hm
      exact (hlists.form m hmem).isValue
  | array => cases (List.cons.inj hobject).1

/-- Reading a text gives the outcome of the check of what it writes. -/
theorem fromJson_eq_check (hfits : config.Fits) (h : config.WrittenAs text) :
    fromJson decoder text = config.check (decoder.order text) := by
  rw [fromJson, decode?_eq_some.mpr ⟨hfits, h⟩]

/-! ## Refusing -/

/-- The errors with which a configuration may be refused.  A step of zero columns is told before
anything else; of the invalid atoms any may be told. -/
inductive RefusedAs (config : Config) : ConfigError → Prop
  | zeroIndentUnit (hunit : config.indentUnit = 0) : config.RefusedAs .zeroIndentUnit
  | zeroTabSize (hunit : config.indentUnit ≠ 0) (htab : config.tabSize = 0) :
    config.RefusedAs .zeroTabSize
  | invalidAtom (hunit : config.indentUnit ≠ 0) (htab : config.tabSize ≠ 0) {w : Text}
    (hmem : w ∈ config.extraAtoms) (hw : ¬ Word.isBareAtom w) : config.RefusedAs (.invalidAtom w)

theorem refusedAs_of_fault? {e : ConfigError} (h : config.fault? order = some e) :
    config.RefusedAs e := by
  unfold fault? at h
  split at h
  · obtain rfl := Option.some.inj h
    exact .zeroIndentUnit ‹_›
  · split at h
    · obtain rfl := Option.some.inj h
      exact .zeroTabSize ‹_› ‹_›
    · obtain ⟨w, hw, rfl⟩ := Option.map_eq_some_iff.mp h
      have hinvalid := List.find?_some hw
      have hmem := WordSet.Enumeration.mem_words.mp (List.mem_of_find?_eq_some hw)
      exact .invalidAtom ‹_› ‹_› hmem (by simpa using hinvalid)

/-- An invalid atom is told in the order that begins with it. -/
theorem exists_fault?_of_refusedAs {e : ConfigError} (h : config.RefusedAs e) :
    ∃ order, config.fault? order = some e := by
  cases h with
  | zeroIndentUnit hunit => exact ⟨.ascending, if_pos hunit⟩
  | zeroTabSize hunit htab =>
    refine ⟨.ascending, ?_⟩
    rw [fault?, if_neg hunit, if_pos htab]
  | @invalidAtom hunit htab w hmem hw =>
    refine ⟨.beginningWith w, ?_⟩
    rw [fault?, if_neg hunit, if_neg htab, WordSet.Enumeration.words_beginningWith hmem,
      List.find?_cons_of_pos (by simpa using hw), Option.map_some]

/-- **The errors of the check**, over all orders. -/
theorem exists_check_eq_error_iff {e : ConfigError} :
    (∃ order, config.check order = .error e) ↔ config.RefusedAs e := by
  simp only [check_eq_error]
  exact ⟨fun ⟨_, h⟩ => refusedAs_of_fault? h, exists_fault?_of_refusedAs⟩

theorem check_ne_malformed (detail : Text) : config.check order ≠ .error (.malformed detail) :=
  fun h => nomatch exists_check_eq_error_iff.mp ⟨order, h⟩

theorem fromJson_eq_malformed :
    fromJson decoder text = .error (.malformed (decoder.complaint text)) ↔
      decode? text = none := by
  unfold fromJson
  split
  · rename_i hnone
    simp [hnone]
  · rename_i config hsome
    simp [hsome, check_ne_malformed]

/-! ## Texts -/

/-- **A text is read as the configuration that it writes, and checked.**  It is malformed exactly if
it writes none, and so is every object with a key twice or with an unknown key.  What is read passes
the check in any order, and the errors of the check are the ones that some order leads to. -/
theorem fromJson_of_written :
    (∀ decoder order config text, Fits config → config.check order = .ok config →
      config.WrittenAs text → fromJson decoder text = .ok config) ∧
    (∀ decoder config text, Fits config → config.WrittenAs text →
      fromJson decoder text = config.check (decoder.order text)) ∧
    (∀ decoder members text, (∀ m ∈ members, IsValue m.2) → Spells (Json.object members) text →
      ¬ KnowsKeys (members.map Prod.fst) →
      fromJson decoder text = .error (.malformed (decoder.complaint text))) ∧
    (∀ decoder text, fromJson decoder text = .error (.malformed (decoder.complaint text)) ↔
      ∀ config, Fits config → ¬ config.WrittenAs text) ∧
    (∀ decoder order text config, fromJson decoder text = .ok config →
      config.check order = .ok config) ∧
    ∀ (config : Config) e, (∃ order, config.check order = .error e) ↔ config.RefusedAs e := by
  refine ⟨?_, ?_, ?_, ?_, ?_, fun config e => exists_check_eq_error_iff⟩
  · intro decoder order config text hfits hcheck hwritten
    rw [fromJson_eq_check hfits hwritten, check_eq_ok, fault?_eq_none]
    exact ⟨rfl, fault?_eq_none.mp (check_eq_ok.mp hcheck).2⟩
  · intro decoder config text hfits hwritten
    exact fromJson_eq_check hfits hwritten
  · intro decoder members text hvalues hspells hkeys
    rw [fromJson_eq_malformed, Option.eq_none_iff_forall_ne_some]
    intro config hdecode
    exact hkeys (knowsKeys_of_decode? hvalues hspells hdecode)
  · intro decoder text
    rw [fromJson_eq_malformed, Option.eq_none_iff_forall_ne_some]
    simp only [ne_eq, decode?_eq_some, not_and]
  · intro decoder order text config h
    exact check_eq_ok.mpr ⟨rfl, fault?_of_fromJson h order⟩

/-- Keys and words may be escaped, words repeated and fields left out; an array is checked like an
object; a key is repeated also if it is spelled in two ways; and of two invalid atoms each may be
told, by one decoder in one text and by another one in another. -/
theorem fromJson_of_written_with_escapes :
    let later : Decoder := { Decoder.plain with order := fun _ => .beginningWith "F".toList }
    fromJson .plain (" \x7b\"indent_style\" : \x7b\"preserve\":null\x7d,\n" ++
        "\"extra_atoms\":[\"tru\\u0065\",\"is\",\"true\"],\"ind\\u0065nt_unit\":2\x7d ").toList =
      .ok { indentUnit := 2, extraAtoms := .ofList ["is".toList, "true".toList],
            indentStyle := .preserve } ∧
    fromJson .plain "[4,null,4,[\"\\ud83D\\ude00\"]]".toList = .error (.invalidAtom ['😀']) ∧
    fromJson .plain "\x7b\"tab_size\":4,\"t\\u0061b_size\":8\x7d".toList =
      .error (.malformed (Decoder.plain.complaint [])) ∧
    fromJson .plain "[4,null,4,[\"F\",\"A\"]]".toList = .error (.invalidAtom "A".toList) ∧
    fromJson later "[4,null,4,[\"A\",\"F\"]]".toList = .error (.invalidAtom "F".toList) := by
  intro later
  obtain ⟨hvalid, hwritten, hkeys, -, -, -⟩ := fromJson_of_written
  have hchecked : ∀ decoder config text e, decode? text = some config →
      config.check (decoder.order text) = .error e → fromJson decoder text = .error e := by
    intro decoder config text e hdecode he
    obtain ⟨hfits, hform⟩ := decode?_eq_some.mp hdecode
    exact (hwritten decoder config text hfits hform).trans he
  refine ⟨?_, ?_, ?_, ?_, ?_⟩
  · have hmembers : Lists {} ⟨2, none, 4, .ofList ["is".toList, "true".toList], .preserve⟩
        [(.indentStyle, Json.enclosed .objectStart .comma .objectEnd
            [[.string "preserve".toList, .colon, .null]]),
          (.extraAtoms, Json.enclosed .arrayStart .comma .arrayEnd
            (["true".toList, "is".toList, "true".toList].map fun w => [.string w])),
          (.indentUnit, [.number 2])] := by
      refine ⟨by decide, ?_, ?_⟩
      · simp only [List.forall_mem_cons, List.not_mem_nil, false_implies, implies_true, and_true]
        refine ⟨.indentStyle .member, .extraAtoms fun w => ?_, .indentUnit⟩
        simp only [WordSet.mem_ofList, List.mem_cons, List.not_mem_nil, or_false]
        grind
      · intro field hfield
        cases field with
        | statementIndentUnit | tabSize => rfl
        | indentUnit | extraAtoms | indentStyle => simp at hfield
    refine hvalid .plain .ascending _ _ ?_ (by decide +kernel)
      ⟨_, .object hmembers, Json.spells_of_symbols? (by decide +kernel)⟩
    intro field
    cases field
    all_goals simp [Field.Fits, Column.largest]
  · exact hchecked .plain { extraAtoms := .ofList [['😀']] } _ _ (by decide +kernel)
      (by decide +kernel)
  · have hsymbols : Json.symbols? "\x7b\"tab_size\":4,\"t\\u0061b_size\":8\x7d".toList =
        some (Json.enclosed .objectStart .comma .objectEnd
          [memberSymbols (.tabSize, [.number 4]), memberSymbols (.tabSize, [.number 8])]) := by
      decide +kernel
    refine hkeys .plain
      [("tab_size".toList, [some (.number 4)]), ("tab_size".toList, [some (.number 8)])]
      _ ?_ (Json.spells_of_symbols? hsymbols) ?_
    · simpa using ⟨IsValue.number 4, IsValue.number 8⟩
    · intro h
      simpa using h.1
  · exact hchecked .plain { extraAtoms := .ofList ["A".toList, "F".toList] } _ _
      (by decide +kernel) (by decide +kernel)
  · exact hchecked later { extraAtoms := .ofList ["A".toList, "F".toList] } _ _
      (by decide +kernel) (by decide +kernel)

end EditorMode.Config
