import AccessPolicy.Proofs.Rule.NestedList
import AccessPolicy.Proofs.Rule.Spelling

/-! # Two ways to write a rule

What a nested list of words says can also be written as a rule text: the words of an
inner list joined by `and`, and the items by `or`. No parentheses are needed, since `and`
binds tighter than `or`. Both are read as the same tree.
-/

namespace AccessPolicy.Rule

/-- A word that stands for a leaf wherever it is written in a rule text: nothing is
detached from it, and it is neither an operator nor quoted. -/
structure PlainWord (word : String) : Prop where
  present : word ≠ ""
  single : Check.LeafWord word.toList
  noOperator : word.toList.map Char.toLower ∉ ["and".toList, "or".toList, "not".toList]

instance (word : String) : Decidable (PlainWord word) :=
  decidable_of_iff
    (word ≠ "" ∧ Check.LeafWord word.toList ∧
      word.toList.map Char.toLower ∉ ["and".toList, "or".toList, "not".toList])
    ⟨fun ⟨present, single, noOperator⟩ => ⟨present, single, noOperator⟩,
    fun ⟨present, single, noOperator⟩ => ⟨present, single, noOperator⟩⟩

/-- An item of a nested list that a rule text can say. -/
inductive PlainItem : Json → Prop where
  | null : PlainItem .null
  | word {word : String} : PlainWord word → PlainItem (.string word)
  | words {words : List String} : (∀ word ∈ words, PlainWord word) →
      PlainItem (.array (words.map .string))

/-- The words of a nested list that are required together, of which there is at least
one. -/
structure Alternative where
  first : String
  others : List String

namespace Alternative

def words (alternative : Alternative) : List String :=
  alternative.first :: alternative.others

def entryWord? : Json → Option String
  | .string word => some word
  | _ => none

/-- The words of an item that counts. -/
def ofItem? : Json → Option Alternative
  | .string word => some ⟨word, []⟩
  | .array entries =>
    match entries.filterMap entryWord? with
    | [] => none
    | first :: others => some ⟨first, others⟩
  | _ => none

def text (alternative : Alternative) : String :=
  " and ".intercalate alternative.words

/-- The term that the text of an alternative spells. -/
def term (alternative : Alternative) : Term :=
  (Term.one (.leaf alternative.first)).extend (alternative.others.map .leaf)

theorem filterMap_entryWord? (words : List String) :
    (words.map .string).filterMap entryWord? = words := by
  induction words with
  | nil => rfl
  | cons word rest ih => exact congrArg (word :: ·) ih

end Alternative

/-- The rule text of a nested list: the words of each item joined by `and`, and the items
that have any joined by `or`. -/
def listText (items : List Json) : String :=
  " or ".intercalate ((items.filterMap Alternative.ofItem?).map Alternative.text)

theorem PlainWord.ofText {word : String} (plain : PlainWord word) :
    Token.ofText word.toList = [.leaf word] := by
  have noKeyword : Keyword.ofWord? word.toList = none := by
    have other := plain.noOperator
    rw [List.mem_cons, List.mem_cons, List.mem_singleton, not_or, not_or] at other
    obtain ⟨noAnd, noOr, noNot⟩ := other
    exact (if_neg noAnd).trans ((if_neg noOr).trans (if_neg noNot))
  have present : word.toList ≠ [] := fun empty => plain.present (String.toList_eq_nil_iff.mp empty)
  rw [Token.ofText_of_leafWord plain.single present noKeyword, String.ofList_toList]

/-- Leaves in front of a term are no conjunction that could take up the others. -/
theorem splicedConjunction_eq_conjunction {first : Check} (leaf : first.IsLeaf)
    (rest : List Check) : splicedConjunction (first :: rest) = conjunction (first :: rest) := by
  cases first with
  | and _ => exact leaf.elim
  | _ => rfl

namespace Alternative

variable {alternative : Alternative}

/-- The text of an alternative spells its term. -/
theorem tokens_term (plain : ∀ word ∈ alternative.words, PlainWord word) :
    alternative.term.tokens = Token.ofText alternative.text.toList := by
  obtain ⟨first, others⟩ := List.forall_mem_cons.mp plain
  have later : alternative.others.flatMap (fun word => [.keyword .and "and", .leaf word]) =
      (alternative.others.map String.toList).flatMap fun part =>
        Token.ofText "and".toList ++ Token.ofText part := by
    rw [List.flatMap_map]
    refine List.flatMap_congr fun word member => ?_
    rw [(others word member).ofText]
    rfl
  have spelled : Token.ofText alternative.text.toList =
      Token.ofText alternative.first.toList ++
        (alternative.others.map String.toList).flatMap fun part =>
          Token.ofText "and".toList ++ Token.ofText part := by
    rw [text, String.toList_intercalate]
    exact Token.ofText_intercalate "and".toList alternative.first.toList
      (alternative.others.map String.toList)
  rw [spelled, first.ofText, ← later, term, Term.tokens_extend, List.flatMap_map]
  rfl

theorem treesWith_term (later : List Check → Check) :
    alternative.term.treesWith later = alternative.words.map .ofWord := by
  rw [term, Term.treesWith_extend, List.map_map]
  rfl

/-- Alternatives joined by `or` are read as the disjunction of their conjunctions. -/
theorem read_intercalate (first : Alternative) (rest : List Alternative)
    (plain : ∀ alternative ∈ first :: rest, ∀ word ∈ alternative.words, PlainWord word) :
    read (" or ".intercalate ((first :: rest).map text)) =
      disjunction ((first :: rest).map fun alternative =>
        conjunction (alternative.words.map .ofWord)) := by
  obtain ⟨begun, others⟩ := List.forall_mem_cons.mp plain
  have spelled : ((Expression.one first.term).extend (rest.map term)).tokens =
      Token.ofText (" or ".intercalate ((first :: rest).map text)).toList := by
    have later : rest.flatMap (fun alternative => .keyword .or "or" :: alternative.term.tokens) =
        (rest.map fun alternative => alternative.text.toList).flatMap fun part =>
          Token.ofText "or".toList ++ Token.ofText part := by
      rw [List.flatMap_map]
      refine List.flatMap_congr fun alternative member => ?_
      rw [tokens_term (others alternative member)]
      rfl
    rw [String.toList_intercalate, List.map_map, Expression.tokens_extend, Expression.tokens,
      tokens_term begun, List.flatMap_map, later]
    exact (Token.ofText_intercalate "or".toList first.text.toList
      (rest.map fun alternative => alternative.text.toList)).symm
  have trees : (rest.map term).map
      (fun term => splicedConjunction (term.treesWith splicedConjunction)) =
        rest.map fun alternative => conjunction (alternative.words.map .ofWord) := by
    rw [List.map_map]
    refine List.map_congr_left fun alternative _ => ?_
    rw [Function.comp_apply, treesWith_term]
    exact splicedConjunction_eq_conjunction (Check.isLeaf_ofWord _) _
  rw [read_of_tokens_eq spelled, Expression.tree, Expression.treesWith_extend,
    Expression.treesWith, treesWith_term, trees]
  rfl

end Alternative

/-- The branches of plain items are the conjunctions of their words. -/
theorem filterMap_branch?_eq {items : List Json} (plain : ∀ item ∈ items, PlainItem item) :
    items.filterMap branch? =
      (items.filterMap Alternative.ofItem?).map fun alternative =>
        conjunction (alternative.words.map .ofWord) := by
  rw [List.map_filterMap]
  refine List.filterMap_congr fun item member => ?_
  cases plain item member with
  | null => rfl
  | word => rfl
  | @words words =>
      rw [Alternative.ofItem?, Alternative.filterMap_entryWord?]
      cases words with
      | nil => rfl
      | cons first rest => exact branch?_words (List.cons_ne_nil _ _)

theorem plainWord_of_mem_words {items : List Json} (plain : ∀ item ∈ items, PlainItem item)
    {alternative : Alternative} (member : alternative ∈ items.filterMap Alternative.ofItem?)
    {word : String} (inside : word ∈ alternative.words) : PlainWord word := by
  obtain ⟨item, among, found⟩ := List.mem_filterMap.mp member
  cases plain item among with
  | null => contradiction
  | word single =>
      cases found
      cases List.mem_singleton.mp inside
      exact single
  | @words words every =>
      rw [Alternative.ofItem?, Alternative.filterMap_entryWord?] at found
      cases words with
      | nil => contradiction
      | cons first rest =>
          cases found
          exact every word inside

/-- **The two syntaxes agree.** A nested list of null, plain words and lists of plain words
is read as the same tree as the rule text that joins the words of its items by `and`, and
the items that have words by `or`. -/
theorem readNested_eq_read {items : List Json} (plain : ∀ item ∈ items, PlainItem item) :
    readNested (.array items) = read (listText items) := by
  rw [readNested, filterMap_branch?_eq plain, listText]
  have words : ∀ alternative ∈ items.filterMap Alternative.ofItem?,
      ∀ word ∈ alternative.words, PlainWord word :=
    fun _ member _ inside => plainWord_of_mem_words plain member inside
  cases alternatives : items.filterMap Alternative.ofItem? with
  | nil => rfl
  | cons first rest =>
      rw [alternatives] at words
      exact (Alternative.read_intercalate first rest words).symm

/-- A word, an inner list of two words, and items that count for nothing. -/
def mixedItems : List Json :=
  [.null, .string "role:a", .array [], .array (["rule:b", "5:x)y"].map .string)]

theorem plainItem_of_mem_mixedItems {item : Json} (member : item ∈ mixedItems) :
    PlainItem item := by
  simp only [mixedItems, List.mem_cons, List.not_mem_nil, or_false] at member
  rcases member with rfl | rfl | rfl | rfl
  · exact .null
  · exact .word (by decide)
  · have empty : PlainItem (.array (([] : List String).map .string)) := .words nofun
    exact empty
  · exact .words (by decide)

/-- The last alternative has both words of its list, as the text has by precedence. -/
theorem readNested_eq_read_mixedItems :
    (∀ item ∈ mixedItems, PlainItem item) ∧
      listText mixedItems = "role:a or rule:b and 5:x)y" ∧
      readNested (.array mixedItems) = read "role:a or rule:b and 5:x)y" := by
  have plain : ∀ item ∈ mixedItems, PlainItem item := fun _ => plainItem_of_mem_mixedItems
  exact ⟨plain, rfl, readNested_eq_read plain⟩

end AccessPolicy.Rule
