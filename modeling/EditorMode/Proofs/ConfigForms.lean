import EditorMode.Config.Json
import EditorMode.Proofs.Json.Value

/-! # The forms of a configuration in JSON

A configuration has many forms: its fields are the members of an object in any order, or the first
elements of an array in their fixed order; a field may be left out where it has its default value;
words may be repeated; a style may be an object.  `Config.Form` lists them, and the reader of
symbols is exact about them (`Config.ofSymbols?_eq_some`): it reads the configuration whose form it
has been given, and it reads nothing else. -/

namespace EditorMode

open Json (Symbol enclosed)

namespace IndentStyle

/-- A style is written by its name, or as an object with that name and the value `null`. -/
inductive Form (style : IndentStyle) : List Symbol → Prop
  | name : Form style [.string style.name.toList]
  | member : Form style (enclosed .objectStart .comma .objectEnd
      [[.string style.name.toList, .colon, .null]])

theorem ofName?_eq_some {name : Text} {style : IndentStyle} :
    ofName? name = some style ↔ name = style.name.toList := by
  constructor
  · intro h
    have hname := List.find?_some h
    exact (eq_of_beq hname).symm
  · rintro rfl
    exact ofName?_name style

theorem ofSymbols?_eq_some {symbols rest : List Symbol} {style : IndentStyle} :
    ofSymbols? symbols = some (style, rest) ↔ ∃ form, style.Form form ∧ symbols = form ++ rest := by
  constructor
  · intro h
    unfold ofSymbols? at h
    split at h
    · obtain ⟨style, hname, he⟩ := Option.map_eq_some_iff.mp h
      obtain ⟨rfl, rfl⟩ := Prod.mk.inj he
      obtain rfl := ofName?_eq_some.mp hname
      exact ⟨_, .name, rfl⟩
    · obtain ⟨style, hname, he⟩ := Option.map_eq_some_iff.mp h
      obtain ⟨rfl, rfl⟩ := Prod.mk.inj he
      obtain rfl := ofName?_eq_some.mp hname
      exact ⟨_, .member, rfl⟩
    · cases h
  · rintro ⟨form, hform, rfl⟩
    cases hform with
    | name =>
      show (ofName? style.name.toList).map (·, rest) = _
      rw [ofName?_name, Option.map_some]
    | member =>
      show (ofName? style.name.toList).map (·, rest) = _
      rw [ofName?_name, Option.map_some]

end IndentStyle

namespace Config

/-! ## Fields -/

namespace Field

/-- Whether two configurations have the same value of a field. -/
def Agree (a b : Config) : Field → Prop
  | indentUnit => a.indentUnit = b.indentUnit
  | statementIndentUnit => a.statementIndentUnit = b.statementIndentUnit
  | tabSize => a.tabSize = b.tabSize
  | extraAtoms => a.extraAtoms = b.extraAtoms
  | indentStyle => a.indentStyle = b.indentStyle

/-- Whether the numbers in a field can be columns. -/
def Fits (config : Config) : Field → Prop
  | indentUnit => config.indentUnit ≤ Column.largest
  | statementIndentUnit => ∀ n ∈ config.statementIndentUnit, n ≤ Column.largest
  | tabSize => config.tabSize ≤ Column.largest
  | extraAtoms | indentStyle => True

/-- The forms of a field's value. -/
inductive Form (config : Config) : Field → List Symbol → Prop
  | indentUnit : Form config indentUnit [.number config.indentUnit]
  | statementIndentUnit {n : Nat} : config.statementIndentUnit = some n →
      Form config statementIndentUnit [.number n]
  | unset : config.statementIndentUnit = none → Form config statementIndentUnit [.null]
  | tabSize : Form config tabSize [.number config.tabSize]
  | extraAtoms {words : List Text} : (∀ w, w ∈ words ↔ w ∈ config.extraAtoms) →
      Form config extraAtoms
        (enclosed .arrayStart .comma .arrayEnd (words.map fun w => [.string w]))
  | indentStyle {form : List Symbol} : config.indentStyle.Form form →
      Form config indentStyle form

/-- A configuration with the value of one field taken from another. -/
def copy (source target : Config) : Field → Config
  | indentUnit => { target with indentUnit := source.indentUnit }
  | statementIndentUnit => { target with statementIndentUnit := source.statementIndentUnit }
  | tabSize => { target with tabSize := source.tabSize }
  | extraAtoms => { target with extraAtoms := source.extraAtoms }
  | indentStyle => { target with indentStyle := source.indentStyle }

theorem mem_all (field : Field) : field ∈ all := by
  cases field <;> decide

theorem key_injective {field other : Field} (h : field.key.toList = other.key.toList) :
    field = other := by
  revert h
  cases field <;> cases other <;> decide +kernel

theorem key_eq_of_find? {field : Field} {fields : List Field} {key : Text}
    (h : fields.find? (·.key.toList == key) = some field) : field.key.toList = key := by
  have hkey := List.find?_some h
  rwa [beq_iff_eq] at hkey

theorem find?_key {field : Field} {fields : List Field} (h : field ∈ fields) :
    fields.find? (·.key.toList == field.key.toList) = some field := by
  have hsome : (fields.find? (·.key.toList == field.key.toList)).isSome :=
    List.find?_isSome.mpr ⟨field, h, beq_self_eq_true _⟩
  obtain ⟨other, hother⟩ := Option.isSome_iff_exists.mp hsome
  rw [hother, key_injective (key_eq_of_find? hother)]

variable {a b c : Config} {field other : Field}

theorem Agree.refl (a : Config) (field : Field) : field.Agree a a := by
  cases field <;> rfl

theorem Agree.symm (h : field.Agree a b) : field.Agree b a := by
  cases field <;> exact Eq.symm h

theorem Agree.trans (h : field.Agree a b) (h' : field.Agree b c) : field.Agree a c := by
  cases field <;> exact Eq.trans h h'

/-- Configurations that agree in every field are equal. -/
theorem eq_of_agree (h : ∀ field : Field, field.Agree a b) : a = b := by
  cases a
  cases b
  obtain rfl := h indentUnit
  obtain rfl := h statementIndentUnit
  obtain rfl := h tabSize
  obtain rfl := h extraAtoms
  obtain rfl := h indentStyle
  rfl

theorem agree_copy (source target : Config) (field : Field) :
    field.Agree (field.copy source target) source := by
  cases field <;> rfl

theorem agree_copy_of_ne (source target : Config) (h : other ≠ field) :
    other.Agree (field.copy source target) target := by
  cases field <;> cases other <;> simp_all [Agree, copy]

theorem Fits.congr (h : field.Agree a b) (hfits : field.Fits a) : field.Fits b := by
  cases field <;> simp_all [Agree, Fits]

theorem Form.congr {form : List Symbol} (h : field.Agree a b) (hform : field.Form a form) :
    field.Form b form := by
  cases hform with
  | indentUnit =>
    rw [show a.indentUnit = b.indentUnit from h]
    exact .indentUnit
  | statementIndentUnit hn => exact .statementIndentUnit ((Eq.symm h).trans hn)
  | unset hnone => exact .unset ((Eq.symm h).trans hnone)
  | tabSize =>
    rw [show a.tabSize = b.tabSize from h]
    exact .tabSize
  | extraAtoms hwords =>
    rw [show a.extraAtoms = b.extraAtoms from h] at hwords
    exact .extraAtoms hwords
  | indentStyle hstyle =>
    rw [show a.indentStyle = b.indentStyle from h] at hstyle
    exact .indentStyle hstyle

end Field

/-! ## Reading a value -/

variable {symbols rest : List Symbol}

theorem readNumber?_eq_some {n : Nat} :
    readNumber? symbols = some (n, rest) ↔ symbols = .number n :: rest ∧ n ≤ Column.largest := by
  unfold readNumber?
  split
  · rename_i m others
    split <;> grind
  · grind

theorem readOptionalNumber?_eq_some {n? : Option Nat} :
    readOptionalNumber? symbols = some (n?, rest) ↔
      (n? = none ∧ symbols = .null :: rest) ∨
        ∃ n, n? = some n ∧ symbols = .number n :: rest ∧ n ≤ Column.largest := by
  unfold readOptionalNumber?
  split
  · grind
  · rename_i hnull
    simp only [Option.map_eq_some_iff, Prod.mk.injEq, Prod.exists, readNumber?_eq_some]
    grind

theorem readWordsAfterBracket?_eq_some {words : List Text} :
    readWordsAfterBracket? symbols = some (words, rest) ↔
      words ≠ [] ∧ symbols =
        [Symbol.comma].intercalate (words.map fun w => [.string w]) ++ .arrayEnd :: rest := by
  constructor
  · intro h
    fun_induction readWordsAfterBracket? symbols generalizing words rest with
    | case1 w others =>
      obtain ⟨rfl, rfl⟩ := Prod.mk.inj (Option.some.inj h)
      exact ⟨List.cons_ne_nil _ _, rfl⟩
    | case2 w others ih =>
      obtain ⟨⟨ws, after⟩, hread, he⟩ := Option.map_eq_some_iff.mp h
      obtain ⟨rfl, rfl⟩ := Prod.mk.inj he
      obtain ⟨hne, rfl⟩ := ih hread
      obtain ⟨v, ws, rfl⟩ := List.exists_cons_of_ne_nil hne
      exact ⟨List.cons_ne_nil _ _, rfl⟩
    | case3 => cases h
  · rintro ⟨hne, rfl⟩
    induction words with
    | nil => exact absurd rfl hne
    | cons w words ih =>
      cases words with
      | nil => rfl
      | cons v words =>
        have hothers := ih (List.cons_ne_nil v words)
        rw [List.map_cons] at hothers
        rw [List.map_cons, List.map_cons, Json.intercalate_cons_cons_append]
        show (readWordsAfterBracket? _).map _ = _
        rw [hothers, Option.map_some]

theorem readWords?_eq_some {words : List Text} :
    readWords? symbols = some (words, rest) ↔
      symbols = enclosed .arrayStart .comma .arrayEnd (words.map fun w => [.string w]) ++ rest := by
  constructor
  · intro h
    unfold readWords? at h
    split at h
    · obtain ⟨rfl, rfl⟩ := Prod.mk.inj (Option.some.inj h)
      rfl
    · obtain ⟨-, rfl⟩ := readWordsAfterBracket?_eq_some.mp h
      simp [enclosed]
    · cases h
  · rintro rfl
    cases words with
    | nil => rfl
    | cons w words =>
      have hopen (others : List Symbol) :
          readWords? (.arrayStart :: .string w :: others) =
            readWordsAfterBracket? (.string w :: others) := rfl
      rw [enclosed, List.cons_append, List.append_assoc]
      cases words with
      | nil => rfl
      | cons v words =>
        exact (hopen _).trans (readWordsAfterBracket?_eq_some.mpr ⟨List.cons_ne_nil w _, rfl⟩)

/-- **A field is read from each form of its value.** -/
theorem readField?_append {field : Field} {config : Config} {form : List Symbol}
    (hform : field.Form config form) (hfits : field.Fits config) (start : Config)
    (rest : List Symbol) :
    readField? field start (form ++ rest) = some (field.copy config start, rest) := by
  cases hform with
  | indentUnit => simp [readField?, readNumber?_eq_some.mpr ⟨rfl, hfits⟩, Field.copy]
  | @statementIndentUnit n hn =>
    have hread : readOptionalNumber? ([.number n] ++ rest) = some (some n, rest) :=
      readOptionalNumber?_eq_some.mpr (.inr ⟨n, rfl, rfl, hfits n hn⟩)
    rw [readField?, hread]
    simp [Field.copy, hn]
  | unset hnone => simp [readField?, readOptionalNumber?, Field.copy, hnone]
  | tabSize => simp [readField?, readNumber?_eq_some.mpr ⟨rfl, hfits⟩, Field.copy]
  | @extraAtoms words hwords =>
    have hset : WordSet.ofList words = config.extraAtoms :=
      WordSet.eq_of_mem_iff fun w => WordSet.mem_ofList.trans (hwords w)
    simp [readField?, readWords?_eq_some.mpr rfl, Field.copy, hset]
  | indentStyle hstyle =>
    simp [readField?, IndentStyle.ofSymbols?_eq_some.mpr ⟨_, hstyle, rfl⟩, Field.copy]

/-- **Only such a form is read**, and the other fields are left alone. -/
theorem exists_form_of_readField? {field : Field} {start next : Config}
    (h : readField? field start symbols = some (next, rest)) :
    ∃ form, field.Form next form ∧ field.Fits next ∧ symbols = form ++ rest ∧
      next = field.copy next start := by
  cases field with
  | indentUnit =>
    obtain ⟨⟨n, after⟩, hread, he⟩ := Option.map_eq_some_iff.mp h
    obtain ⟨rfl, rfl⟩ := Prod.mk.inj he
    obtain ⟨rfl, hle⟩ := readNumber?_eq_some.mp hread
    exact ⟨_, .indentUnit, hle, rfl, rfl⟩
  | statementIndentUnit =>
    obtain ⟨⟨n?, after⟩, hread, he⟩ := Option.map_eq_some_iff.mp h
    obtain ⟨rfl, rfl⟩ := Prod.mk.inj he
    rcases readOptionalNumber?_eq_some.mp hread with ⟨rfl, rfl⟩ | ⟨n, rfl, rfl, hle⟩
    · exact ⟨_, .unset rfl, nofun, rfl, rfl⟩
    · refine ⟨_, .statementIndentUnit rfl, fun m hm => ?_, rfl, rfl⟩
      obtain rfl := Option.some.inj hm
      exact hle
  | tabSize =>
    obtain ⟨⟨n, after⟩, hread, he⟩ := Option.map_eq_some_iff.mp h
    obtain ⟨rfl, rfl⟩ := Prod.mk.inj he
    obtain ⟨rfl, hle⟩ := readNumber?_eq_some.mp hread
    exact ⟨_, .tabSize, hle, rfl, rfl⟩
  | extraAtoms =>
    obtain ⟨⟨words, after⟩, hread, he⟩ := Option.map_eq_some_iff.mp h
    obtain ⟨rfl, rfl⟩ := Prod.mk.inj he
    obtain rfl := readWords?_eq_some.mp hread
    exact ⟨_, .extraAtoms fun w => WordSet.mem_ofList.symm, trivial, rfl, rfl⟩
  | indentStyle =>
    obtain ⟨⟨style, after⟩, hread, he⟩ := Option.map_eq_some_iff.mp h
    obtain ⟨rfl, rfl⟩ := Prod.mk.inj he
    obtain ⟨form, hform, rfl⟩ := IndentStyle.ofSymbols?_eq_some.mp hread
    exact ⟨_, .indentStyle hform, trivial, rfl, rfl⟩

/-! ## Reading all fields -/

/-- Whether some fields with forms of their values tell what makes a configuration of another one:
no field occurs twice, and the two agree where a field does not occur. -/
structure Lists (start config : Config) (members : List (Field × List Symbol)) : Prop where
  nodup : (members.map Prod.fst).Nodup
  form : ∀ m ∈ members, m.1.Form config m.2
  agree : ∀ field, field ∉ members.map Prod.fst → field.Agree start config

/-- The symbols of a member of an object. -/
def memberSymbols (m : Field × List Symbol) : List Symbol := .string m.1.key.toList :: .colon :: m.2

/-- The forms of a configuration: an object with its fields in any order, or an array with the first
of its fields in their fixed order.  The fields that are left out have their default values. -/
inductive Form (config : Config) : List Symbol → Prop
  | object {members : List (Field × List Symbol)} : Lists {} config members →
      Form config (enclosed .objectStart .comma .objectEnd (members.map memberSymbols))
  | array {members : List (Field × List Symbol)} : Lists {} config members →
      members.map Prod.fst <+: Field.all →
      Form config (enclosed .arrayStart .comma .arrayEnd (members.map Prod.snd))

/-- Whether the numbers of a configuration can be columns, as those of every configuration in use
are.  A larger number cannot be read. -/
def Fits (config : Config) : Prop := ∀ field : Field, field.Fits config

section Lists

variable {start next config : Config} {field : Field} {form : List Symbol}
  {members : List (Field × List Symbol)} {unread fields : List Field}

theorem Lists.eq_of_nil (h : Lists start config []) : start = config :=
  Field.eq_of_agree fun field => h.agree field List.not_mem_nil

theorem lists_nil (config : Config) : Lists config config [] :=
  ⟨.nil, nofun, fun field _ => .refl config field⟩

/-- Once the first field has been read, the others are left. -/
theorem Lists.tail (h : Lists start config ((field, form) :: members)) :
    Lists (field.copy config start) config members := by
  refine ⟨(List.nodup_cons.mp h.nodup).2, fun m hm => h.form m (List.mem_cons_of_mem _ hm), ?_⟩
  intro other hother
  by_cases hne : other = field
  · subst hne
    exact Field.agree_copy config start other
  · refine (Field.agree_copy_of_ne config start hne).trans (h.agree other ?_)
    exact List.not_mem_cons_of_ne_of_not_mem hne hother

/-- A field that has been read stays as it is, if it does not occur again. -/
theorem Lists.cons (hform : field.Form next form) (hnext : next = field.copy next start)
    (hfield : field ∉ members.map Prod.fst) (h : Lists next config members) :
    Lists start config ((field, form) :: members) := by
  refine ⟨List.nodup_cons.mpr ⟨hfield, h.nodup⟩, ?_, ?_⟩
  · intro m hm
    rcases List.mem_cons.mp hm with rfl | hm
    · exact hform.congr (h.agree field hfield)
    · exact h.form m hm
  · intro other hother
    obtain ⟨hne, hother⟩ := List.ne_and_not_mem_of_not_mem_cons hother
    have hstart : other.Agree start next := by
      rw [hnext]
      exact (Field.agree_copy_of_ne next start hne).symm
    exact hstart.trans (h.agree other hother)

theorem fits_of_fits (hnext : next = field.copy next start) (hfield : field.Fits next)
    (hstart : Fits start) : Fits next := by
  intro other
  by_cases hne : other = field
  · exact hne ▸ hfield
  · rw [hnext]
    exact (hstart other).congr (Field.agree_copy_of_ne next start hne).symm

theorem fits_default : Fits {} := by
  intro field
  cases field
  all_goals simp [Field.Fits, Column.largest]

theorem readMembers?_member_append (hmem : field ∈ unread) (hform : field.Form config form)
    (hfits : field.Fits config) (start : Config) (after : List Symbol) :
    readMembers? unread start (memberSymbols (field, form) ++ after) =
      match after with
      | .objectEnd :: rest => some (field.copy config start, rest)
      | .comma :: rest => readMembers? (unread.erase field) (field.copy config start) rest
      | _ => none := by
  have hfind := Field.find?_key hmem
  have hvalue := readField?_append hform hfits start after
  rw [memberSymbols, List.cons_append, List.cons_append, readMembers?]
  split
  · rename_i hnone
    cases hfind.symm.trans hnone
  · rename_i other hother
    obtain rfl := Option.some.inj (hfind.symm.trans hother)
    rw [hvalue]
    split <;> simp_all

/-- **The members of an object are read in any order.** -/
theorem readMembers?_append (hne : members ≠ []) (h : Lists start config members)
    (hfits : Fits config) (hunread : ∀ m ∈ members, m.1 ∈ unread) (rest : List Symbol) :
    readMembers? unread start
      ([Symbol.comma].intercalate (members.map memberSymbols) ++ .objectEnd :: rest) =
        some (config, rest) := by
  -- Each member is written into what the earlier ones have left, so the start is general.
  induction members generalizing unread start with
  | nil => exact absurd rfl hne
  | cons m members ih =>
    obtain ⟨field, form⟩ := m
    have hmem := hunread (field, form) List.mem_cons_self
    have hform := h.form (field, form) List.mem_cons_self
    cases members with
    | nil =>
      have hread := readMembers?_member_append hmem hform (hfits field) start (.objectEnd :: rest)
      rw [h.tail.eq_of_nil] at hread
      simpa using hread
    | cons next members =>
      rw [List.map_cons, List.map_cons, Json.intercalate_cons_cons_append,
        readMembers?_member_append hmem hform (hfits field)]
      refine ih (List.cons_ne_nil _ _) h.tail fun m hm => ?_
      have hfield : m.1 ≠ field := by
        rintro rfl
        exact (List.nodup_cons.mp h.nodup).1 (List.mem_map.mpr ⟨m, hm, rfl⟩)
      exact (List.mem_erase_of_ne hfield).mpr (hunread m (List.mem_cons_of_mem _ hm))

/-- **Only such members are read.** -/
theorem exists_members_of_readMembers? (hstart : Fits start) (hunread : unread.Nodup)
    (h : readMembers? unread start symbols = some (config, rest)) :
    ∃ members, members ≠ [] ∧ Lists start config members ∧ Fits config ∧
      (∀ m ∈ members, m.1 ∈ unread) ∧
      symbols = [Symbol.comma].intercalate (members.map memberSymbols) ++ .objectEnd :: rest := by
  fun_induction readMembers? unread start symbols with
  | case1 unread start key others hnone => cases h
  | case2 unread start key others field hfind next after hvalue =>
    obtain ⟨rfl, rfl⟩ := Prod.mk.inj (Option.some.inj h)
    obtain ⟨form, hform, hfield, rfl, hnext⟩ := exists_form_of_readField? hvalue
    obtain rfl := Field.key_eq_of_find? hfind
    refine ⟨[(field, form)], List.cons_ne_nil _ _, ?_, fits_of_fits hnext hfield hstart, ?_, ?_⟩
    · exact (lists_nil next).cons hform hnext List.not_mem_nil
    · simpa using List.mem_of_find?_eq_some hfind
    · simp [memberSymbols]
  | case3 unread start key others field hfind next after hvalue ih =>
    obtain ⟨form, hform, hfield, rfl, hnext⟩ := exists_form_of_readField? hvalue
    obtain rfl := Field.key_eq_of_find? hfind
    obtain ⟨members, hne, hlists, hfits, hmem, rfl⟩ :=
      ih (fits_of_fits hnext hfield hstart) (hunread.erase field) h
    obtain ⟨m, members, rfl⟩ := List.exists_cons_of_ne_nil hne
    refine ⟨(field, form) :: m :: members, List.cons_ne_nil _ _, ?_, hfits, ?_, ?_⟩
    · refine hlists.cons hform hnext fun hfield => ?_
      obtain ⟨m', hm', rfl⟩ := List.mem_map.mp hfield
      exact (hunread.mem_erase_iff.mp (hmem m' hm')).1 rfl
    · intro m' hm'
      rcases List.mem_cons.mp hm' with rfl | hm'
      · exact List.mem_of_find?_eq_some hfind
      · exact List.mem_of_mem_erase (hmem m' hm')
    · simp only [List.map_cons, Json.intercalate_cons_cons_append]
      simp [memberSymbols]
  | case4 => cases h
  | case5 => cases h

/-- **The elements of an array are read in the order of the fields.** -/
theorem readElements?_append (hne : members ≠ []) (h : Lists start config members)
    (hfits : Fits config) (hfields : members.map Prod.fst <+: fields) (rest : List Symbol) :
    readElements? fields start
      ([Symbol.comma].intercalate (members.map Prod.snd) ++ .arrayEnd :: rest) =
        some (config, rest) := by
  induction members generalizing fields start with
  | nil => exact absurd rfl hne
  | cons m members ih =>
    obtain ⟨field, form⟩ := m
    obtain ⟨fields, rfl, hothers⟩ : ∃ others, fields = field :: others ∧
        members.map Prod.fst <+: others := by
      obtain ⟨others, rfl⟩ := hfields
      exact ⟨members.map Prod.fst ++ others, rfl, List.prefix_append _ _⟩
    have hform := h.form (field, form) List.mem_cons_self
    have hvalue := readField?_append hform (hfits field) start
    cases members with
    | nil =>
      rw [List.map_cons, List.map_nil, List.intercalate_singleton, readElements?, hvalue,
        h.tail.eq_of_nil]
    | cons next members =>
      rw [List.map_cons, List.map_cons, Json.intercalate_cons_cons_append, readElements?, hvalue]
      exact ih (List.cons_ne_nil _ _) h.tail hothers

/-- **Only such elements are read.** -/
theorem exists_members_of_readElements? (hstart : Fits start) (hfields : fields.Nodup)
    (h : readElements? fields start symbols = some (config, rest)) :
    ∃ members, members ≠ [] ∧ Lists start config members ∧ Fits config ∧
      members.map Prod.fst <+: fields ∧
      symbols = [Symbol.comma].intercalate (members.map Prod.snd) ++ .arrayEnd :: rest := by
  fun_induction readElements? fields start symbols with
  | case1 => cases h
  | case2 field others start symbols next after hvalue =>
    obtain ⟨rfl, rfl⟩ := Prod.mk.inj (Option.some.inj h)
    obtain ⟨form, hform, hfield, rfl, hnext⟩ := exists_form_of_readField? hvalue
    refine ⟨[(field, form)], List.cons_ne_nil _ _, ?_, fits_of_fits hnext hfield hstart, ?_, ?_⟩
    · exact (lists_nil next).cons hform hnext List.not_mem_nil
    · exact List.prefix_append [field] others
    · simp
  | case3 field others start symbols next after hvalue ih =>
    obtain ⟨form, hform, hfield, rfl, hnext⟩ := exists_form_of_readField? hvalue
    obtain ⟨hnotMem, hothers⟩ := List.nodup_cons.mp hfields
    obtain ⟨members, hne, hlists, hfits, hfirst, rfl⟩ :=
      ih (fits_of_fits hnext hfield hstart) hothers h
    obtain ⟨m, members, rfl⟩ := List.exists_cons_of_ne_nil hne
    refine ⟨(field, form) :: m :: members, List.cons_ne_nil _ _, ?_, hfits, ?_, ?_⟩
    · exact hlists.cons hform hnext fun hmem => hnotMem (hfirst.subset hmem)
    · exact List.cons_prefix_cons.mpr ⟨rfl, hfirst⟩
    · simp only [List.map_cons, Json.intercalate_cons_cons_append]
  | case4 => cases h

end Lists

/-! ## Reading a configuration -/

variable {config : Config}

theorem readConfig?_of_readMembers? {result : Config × List Symbol}
    (h : readMembers? Field.all {} symbols = some result) :
    readConfig? (.objectStart :: symbols) = some result := by
  unfold readConfig?
  split
  · rename_i he
    obtain rfl := (List.cons.inj he).2
    simp [readMembers?] at h
  · rename_i he
    obtain rfl := (List.cons.inj he).2
    exact h
  · rename_i he
    cases he
  · rename_i he
    cases he
  · rename_i hobject _ _
    exact absurd rfl (hobject symbols)

theorem readConfig?_of_readElements? {result : Config × List Symbol}
    (h : readElements? Field.all {} symbols = some result) :
    readConfig? (.arrayStart :: symbols) = some result := by
  unfold readConfig?
  split
  · rename_i he
    cases he
  · rename_i he
    cases he
  · rename_i he
    obtain rfl := (List.cons.inj he).2
    cases h
  · rename_i he
    obtain rfl := (List.cons.inj he).2
    exact h
  · rename_i harray
    exact absurd rfl (harray symbols)

theorem Form.readConfig?_eq (h : config.Form symbols) (hfits : config.Fits) :
    readConfig? symbols = some (config, []) := by
  cases h with
  | @object members hlists =>
    cases members with
    | nil => rw [← hlists.eq_of_nil]; rfl
    | cons m members =>
      exact readConfig?_of_readMembers?
        (readMembers?_append (List.cons_ne_nil m members) hlists hfits (fun m _ => m.1.mem_all) [])
  | @array members hlists hfirst =>
    cases members with
    | nil => rw [← hlists.eq_of_nil]; rfl
    | cons m members =>
      exact readConfig?_of_readElements?
        (readElements?_append (List.cons_ne_nil m members) hlists hfits hfirst [])

theorem form_of_readConfig?_eq_some (h : readConfig? symbols = some (config, [])) :
    config.Fits ∧ config.Form symbols := by
  have hnodup : Field.all.Nodup := by decide
  unfold readConfig? at h
  split at h
  · obtain ⟨rfl, rfl⟩ := Prod.mk.inj (Option.some.inj h)
    exact ⟨fits_default, .object (lists_nil {})⟩
  · obtain ⟨members, -, hlists, hfits, -, rfl⟩ :=
      exists_members_of_readMembers? fits_default hnodup h
    exact ⟨hfits, .object hlists⟩
  · obtain ⟨rfl, rfl⟩ := Prod.mk.inj (Option.some.inj h)
    exact ⟨fits_default, .array (lists_nil {}) List.nil_prefix⟩
  · obtain ⟨members, -, hlists, hfits, hfirst, rfl⟩ :=
      exists_members_of_readElements? fits_default hnodup h
    exact ⟨hfits, .array hlists hfirst⟩
  · cases h

/-- **The symbols of a configuration are its forms.** -/
theorem ofSymbols?_eq_some :
    ofSymbols? symbols = some config ↔ config.Fits ∧ config.Form symbols := by
  constructor
  · intro h
    unfold ofSymbols? at h
    split at h
    · rename_i hread
      obtain rfl := Option.some.inj h
      exact form_of_readConfig?_eq_some hread
    · cases h
  · rintro ⟨hfits, hform⟩
    rw [ofSymbols?, hform.readConfig?_eq hfits]

end Config
end EditorMode
