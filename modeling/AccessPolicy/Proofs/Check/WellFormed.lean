import AccessPolicy.Proofs.Check.Branches
import AccessPolicy.Proofs.Text.Words
import Mathlib.Data.List.Basic

/-! # Checks with a rule text of their own

Every check has a canonical text, but only a check whose leaves are single words and
whose conjunctions and disjunctions have several branches can be told apart by it.
The leaf of a word has that word as its canonical text, and is well formed when the
word is.
-/

namespace AccessPolicy.Check

/-- A word that is read as one token with nothing taken off. -/
structure LeafWord (word : List Char) : Prop where
  blankFree : Text.BlankFree word
  noOpening : word.head? ≠ some '('
  noClosing : word.getLast? ≠ some ')'
  unwrapped : ¬ Text.Wrapped word

instance (word : List Char) : Decidable (LeafWord word) :=
  decidable_of_iff
    (word.any Text.isBlank = false ∧ word.head? ≠ some '(' ∧ word.getLast? ≠ some ')' ∧
      Text.unquote? word = none)
    ⟨fun ⟨free, opening, closing, unquoted⟩ =>
      ⟨fun c member => Bool.eq_false_iff.mpr (List.any_eq_false.mp free c member), opening,
        closing, Text.not_wrapped_of_unquote?_eq_none unquoted⟩,
    fun ⟨free, opening, closing, unwrapped⟩ =>
      ⟨List.any_eq_false.mpr fun c member => Bool.eq_false_iff.mp (free c member), opening,
        closing, Text.unquote?_eq_none unwrapped⟩⟩

/-- The leaves of a check are single words, its operands are separated by the colon
between them, and its conjunctions and disjunctions have at least two branches. -/
inductive WellFormed : Check → Prop
  | deny : WellFormed .deny
  | allow : WellFormed .allow
  | not {inner : Check} (formed : WellFormed inner) : WellFormed (.not inner)
  | and {branches : List Check} (several : 2 ≤ branches.length)
      (formed : ∀ branch ∈ branches, WellFormed branch) : WellFormed (.and branches)
  | or {branches : List Check} (several : 2 ≤ branches.length)
      (formed : ∀ branch ∈ branches, WellFormed branch) : WellFormed (.or branches)
  | rule {name : String} (word : LeafWord (rule name).chars) : WellFormed (.rule name)
  | role {name : String} (word : LeafWord (role name).chars) : WellFormed (.role name)
  | compare {kind matcher : String} (word : LeafWord (compare kind matcher).chars)
      (noColon : ':' ∉ kind.toList) (notRule : kind ≠ "rule") (notRole : kind ≠ "role") :
      WellFormed (.compare kind matcher)

/-- The parts of a well-formed check are well formed. -/
theorem WellFormed.of_occursIn {part check : Check} (occurs : part.OccursIn check)
    (formed : check.WellFormed) : part.WellFormed := by
  induction occurs with
  | whole => exact formed
  | not _ ih =>
      cases formed with
      | not inside => exact ih inside
  | and member _ ih =>
      cases formed with
      | and _ inside => exact ih (inside _ member)
  | or member _ ih =>
      cases formed with
      | or _ inside => exact ih (inside _ member)

/-! ## Cutting at the first colon -/

theorem splitAtColon?_append {kind : List Char} (noColon : ':' ∉ kind) (matcher : List Char) :
    splitAtColon? (kind ++ ':' :: matcher) = some (kind, matcher) := by
  induction kind with
  | nil => rfl
  | cons c rest ih =>
      obtain ⟨other, later⟩ := List.ne_and_not_mem_of_not_mem_cons noColon
      rw [List.cons_append, splitAtColon?, ih later]
      simp only [other.symm, ↓reduceIte, Option.map_some]

theorem splitAtColon?_eq_some {word kind matcher : List Char}
    (split : splitAtColon? word = some (kind, matcher)) :
    word = kind ++ ':' :: matcher ∧ ':' ∉ kind := by
  induction word generalizing kind with
  | nil => contradiction
  | cons c rest ih =>
      rw [splitAtColon?] at split
      by_cases colon : c = ':'
      · simp only [colon, ↓reduceIte, Option.some.injEq, Prod.mk.injEq] at split
        obtain ⟨rfl, rfl⟩ := split
        exact ⟨congrArg (· :: rest) colon, List.not_mem_nil⟩
      · simp only [colon, ↓reduceIte, Option.map_eq_some_iff, Prod.exists, Prod.mk.injEq] at split
        obtain ⟨first, _, inside, rfl, rfl⟩ := split
        obtain ⟨rfl, noColon⟩ := ih inside
        refine ⟨rfl, ?_⟩
        rw [List.mem_cons, not_or]
        exact ⟨fun same => colon same.symm, noColon⟩

/-- A word cut at its first colon starts with another word up to a colon only if that
is its first part. -/
theorem isPrefixOf?_eq_none_iff {front kind : List Char} (clean : ':' ∉ front)
    (noColon : ':' ∉ kind) (matcher : List Char) :
    (front ++ [':']).isPrefixOf? (kind ++ ':' :: matcher) = none ↔ kind ≠ front := by
  constructor
  · rintro absent rfl
    have found : (kind ++ [':']).isPrefixOf? (kind ++ ':' :: matcher) = some matcher :=
      List.isPrefixOf?_eq_some_iff_append_eq.mpr (List.append_assoc kind [':'] matcher)
    rw [absent] at found
    contradiction
  · intro other
    rw [Option.eq_none_iff_forall_ne_some]
    intro rest found
    have whole := List.isPrefixOf?_eq_some_iff_append_eq.mp found
    rw [List.append_assoc, List.singleton_append] at whole
    have cut := splitAtColon?_append clean rest
    rw [whole, splitAtColon?_append noColon matcher] at cut
    exact other (congrArg Prod.fst (Option.some.inj cut))

/-! ## Canonical texts -/

theorem chars_compare (kind matcher : String) :
    (compare kind matcher).chars = kind.toList ++ ':' :: matcher.toList := rfl

theorem chars_rule (name : List Char) :
    (rule (String.ofList name)).chars = "rule:".toList ++ name :=
  congrArg ("rule:".toList ++ ·) String.toList_ofList

theorem chars_role (name : List Char) :
    (role (String.ofList name)).chars = "role:".toList ++ name :=
  congrArg ("role:".toList ++ ·) String.toList_ofList

/-! ## The leaf of a word -/

/-- The leaf of a single word is well formed. -/
theorem wellFormed_of_ofWord? {word : List Char} {check : Check} (leaf : LeafWord word)
    (reads : ofWord? word = some check) : check.WellFormed := by
  unfold ofWord? at reads
  split_ifs at reads
  · obtain rfl := Option.some.inj reads
    exact .deny
  · obtain rfl := Option.some.inj reads
    exact .allow
  · cases noRule : "rule:".toList.isPrefixOf? word with
    | some name =>
        simp only [noRule] at reads
        obtain rfl := Option.some.inj reads
        refine .rule ?_
        rw [chars_rule, List.isPrefixOf?_eq_some_iff_append_eq.mp noRule]
        exact leaf
    | none =>
        simp only [noRule] at reads
        cases noRole : "role:".toList.isPrefixOf? word with
        | some name =>
            simp only [noRole] at reads
            obtain rfl := Option.some.inj reads
            refine .role ?_
            rw [chars_role, List.isPrefixOf?_eq_some_iff_append_eq.mp noRole]
            exact leaf
        | none =>
            simp only [noRole] at reads
            obtain ⟨⟨kind, matcher⟩, cut, rfl⟩ := Option.map_eq_some_iff.mp reads
            obtain ⟨rfl, noColon⟩ := splitAtColon?_eq_some cut
            have notRule : kind ≠ "rule".toList :=
              (isPrefixOf?_eq_none_iff (by decide) noColon matcher).mp noRule
            have notRole : kind ≠ "role".toList :=
              (isPrefixOf?_eq_none_iff (by decide) noColon matcher).mp noRole
            have spelled : (String.ofList kind).toList = kind := String.toList_ofList
            refine .compare ?_ ?_ ?_ ?_
            · rw [chars_compare, spelled, String.toList_ofList]
              exact leaf
            · rw [spelled]
              exact noColon
            · exact fun same => notRule (spelled.symm.trans (congrArg String.toList same))
            · exact fun same => notRole (spelled.symm.trans (congrArg String.toList same))

theorem wellFormed_ofWord {word : String} (leaf : LeafWord word.toList) :
    (ofWord word).WellFormed := by
  rw [ofWord]
  cases reads : ofWord? word.toList with
  | none => exact .deny
  | some check => exact wellFormed_of_ofWord? leaf reads

/-- A word without a colon allows or denies, whatever else it is made of. -/
theorem wellFormed_ofWord_of_noColon {word : String} (noColon : ':' ∉ word.toList) :
    (ofWord word).WellFormed := by
  have noPrefix : ∀ front : List Char, ':' ∈ front → front.isPrefixOf? word.toList = none := by
    intro front colon
    rw [Option.eq_none_iff_forall_ne_some]
    intro rest found
    have whole := List.isPrefixOf?_eq_some_iff_append_eq.mp found
    exact noColon (whole ▸ List.mem_append_left rest colon)
  have noCut : splitAtColon? word.toList = none := by
    rw [Option.eq_none_iff_forall_ne_some]
    rintro ⟨kind, matcher⟩ cut
    obtain ⟨whole, _⟩ := splitAtColon?_eq_some cut
    rw [whole] at noColon
    exact noColon (List.mem_append_right kind List.mem_cons_self)
  rw [ofWord, ofWord?, noPrefix "rule:".toList (by decide), noPrefix "role:".toList (by decide),
    noCut]
  split_ifs
  · exact .deny
  · exact .allow
  · exact .deny

theorem ofWord?_rule (name : String) : ofWord? (rule name).chars = some (.rule name) := by
  change some (Check.rule (String.ofList name.toList)) = some (.rule name)
  rw [String.ofList_toList]

theorem ofWord?_role (name : String) : ofWord? (role name).chars = some (.role name) := by
  change some (Check.role (String.ofList name.toList)) = some (.role name)
  rw [String.ofList_toList]

theorem colon_mem_chars (kind matcher : String) : ':' ∈ (compare kind matcher).chars :=
  List.mem_append_right _ List.mem_cons_self

theorem ofWord?_compare {kind : String} (noColon : ':' ∉ kind.toList) (notRule : kind ≠ "rule")
    (notRole : kind ≠ "role") (matcher : String) :
    ofWord? (compare kind matcher).chars = some (.compare kind matcher) := by
  have colon := colon_mem_chars kind matcher
  have denies : (compare kind matcher).chars ≠ ['!'] := by
    intro same
    rw [same] at colon
    exact absurd colon (by decide)
  have allows : (compare kind matcher).chars ≠ ['@'] := by
    intro same
    rw [same] at colon
    exact absurd colon (by decide)
  have noRule : "rule:".toList.isPrefixOf? (compare kind matcher).chars = none :=
    (isPrefixOf?_eq_none_iff (by decide : ':' ∉ "rule".toList) noColon matcher.toList).mpr
      fun same => notRule (String.toList_injective same)
  have noRole : "role:".toList.isPrefixOf? (compare kind matcher).chars = none :=
    (isPrefixOf?_eq_none_iff (by decide : ':' ∉ "role".toList) noColon matcher.toList).mpr
      fun same => notRole (String.toList_injective same)
  unfold ofWord?
  simp only [denies, allows, noRule, noRole, ↓reduceIte]
  rw [chars_compare, splitAtColon?_append noColon, Option.map_some, String.ofList_toList,
    String.ofList_toList]

end AccessPolicy.Check
