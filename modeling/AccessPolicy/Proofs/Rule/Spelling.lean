import AccessPolicy.Proofs.Check.Collapse
import AccessPolicy.Proofs.Rule.Layout
import AccessPolicy.Proofs.Rule.Reading

/-! # The derivations of written checks

Texts joined by an operator between blanks have the tokens of the texts with the operator
between them. So the canonical text of a check spells a factor, if its leaves are single
words: a leaf is its own word, and the branches of a conjunction or disjunction are the
factors of one term or the terms of one expression. What the factor stands for is the
check without the nodes that have fewer than two branches.
-/

namespace AccessPolicy.Rule

/-! ## Derivations of several parts -/

/-- Further factors after a term. -/
def Term.extend (front : Term) : List Factor → Term
  | [] => front
  | next :: rest => (Term.snoc front "and" next).extend rest

/-- Further terms after an expression. -/
def Expression.extend (front : Expression) : List Term → Expression
  | [] => front
  | next :: rest => (Expression.snoc front "or" next).extend rest

theorem Term.tokens_extend (front : Term) (rest : List Factor) :
    (front.extend rest).tokens =
      front.tokens ++ rest.flatMap fun factor => .keyword .and "and" :: factor.tokens := by
  induction rest generalizing front with
  | nil => rw [extend, List.flatMap_nil, List.append_nil]
  | cons next rest ih =>
      rw [extend, ih, tokens, List.flatMap_cons, List.append_assoc]

theorem Expression.tokens_extend (front : Expression) (rest : List Term) :
    (front.extend rest).tokens =
      front.tokens ++ rest.flatMap fun term => .keyword .or "or" :: term.tokens := by
  induction rest generalizing front with
  | nil => rw [extend, List.flatMap_nil, List.append_nil]
  | cons next rest ih =>
      rw [extend, ih, tokens, List.flatMap_cons, List.append_assoc]

section Trees

variable (later : List Check → Check)

theorem Term.treesWith_extend (front : Term) (rest : List Factor) :
    (front.extend rest).treesWith later =
      front.treesWith later ++ rest.map (·.treeWith later) := by
  induction rest generalizing front with
  | nil => rw [extend, List.map_nil, List.append_nil]
  | cons next rest ih =>
      rw [extend, ih, treesWith, List.append_assoc, List.singleton_append, List.map_cons]

theorem Expression.treesWith_extend (front : Expression) (rest : List Term) :
    (front.extend rest).treesWith later =
      front.treesWith later ++ rest.map fun term => later (term.treesWith later) := by
  induction rest generalizing front with
  | nil => rw [extend, List.map_nil, List.append_nil]
  | cons next rest ih =>
      rw [extend, ih, treesWith, List.append_assoc, List.singleton_append, List.map_cons]

end Trees

theorem Factor.tokens_ne_nil (factor : Factor) : factor.tokens ≠ [] := by
  cases factor <;> exact List.cons_ne_nil _ _

theorem Term.tokens_ne_nil (term : Term) : term.tokens ≠ [] := by
  cases term with
  | one factor => exact factor.tokens_ne_nil
  | snoc front spelling last => exact List.append_ne_nil_of_right_ne_nil _ (List.cons_ne_nil _ _)

theorem Expression.tokens_ne_nil (expression : Expression) : expression.tokens ≠ [] := by
  cases expression with
  | one term => exact term.tokens_ne_nil
  | snoc front spelling last => exact List.append_ne_nil_of_right_ne_nil _ (List.cons_ne_nil _ _)

/-! ## The tokens of joined texts -/

namespace Token

theorem ofText_of_isBlankText {text : List Char} (blank : Text.isBlankText text = true) :
    ofText text = [] := by
  induction text with
  | nil => rfl
  | cons c rest ih =>
      obtain ⟨first, later⟩ := List.forall_mem_cons.mp (List.all_eq_true.mp blank)
      rw [ofText, Text.words_cons_blank rest first]
      exact ih (List.all_eq_true.mpr later)

/-- Texts after an operator between blanks are read one by one. -/
theorem ofText_joined (operator front : List Char) (parts : List (List Char)) :
    ofText (front ++ parts.flatMap fun part => ' ' :: (operator ++ ' ' :: part)) =
      ofText front ++ parts.flatMap fun part => ofText operator ++ ofText part := by
  induction parts generalizing front with
  | nil => rw [List.flatMap_nil, List.flatMap_nil, List.append_nil, List.append_nil]
  | cons part rest ih =>
      have blank : Text.isBlank ' ' = true := rfl
      rw [List.flatMap_cons, List.flatMap_cons, List.cons_append,
        ofText_append_blank _ blank, List.append_assoc, List.cons_append,
        ofText_append_blank _ blank, ih, List.append_assoc]

/-- The parts around an operator between blanks are read one by one. -/
theorem ofText_intercalate (operator first : List Char) (rest : List (List Char)) :
    ofText ((' ' :: (operator ++ [' '])).intercalate (first :: rest)) =
      ofText first ++ rest.flatMap fun part => ofText operator ++ ofText part := by
  have joined : ∀ front : List Char,
      (' ' :: (operator ++ [' '])).intercalate (front :: rest) =
        front ++ rest.flatMap fun part => ' ' :: (operator ++ ' ' :: part) := by
    induction rest with
    | nil => exact fun front => List.intercalate_singleton.trans (List.append_nil front).symm
    | cons part others ih =>
        intro front
        rw [List.intercalate_cons_cons, ih part, List.flatMap_cons, List.append_assoc,
          List.cons_append, List.append_assoc, List.singleton_append, List.cons_append,
          List.append_assoc, List.cons_append]
  rw [joined first, ofText_joined]

theorem keyword_of_colon {word : List Char} (colon : ':' ∈ word) :
    Keyword.ofWord? word = none := by
  have lower : ':' ∈ word.map Char.toLower := List.mem_map.mpr ⟨':', colon, rfl⟩
  have other : ∀ {spelling : List Char}, ':' ∉ spelling → word.map Char.toLower ≠ spelling := by
    rintro spelling noColon rfl
    exact noColon lower
  rw [Keyword.ofWord?, if_neg (other (by decide)), if_neg (other (by decide)),
    if_neg (other (by decide))]

/-- A single word that is no operator is the token of a leaf. -/
theorem ofText_of_leafWord {word : List Char} (leaf : Check.LeafWord word)
    (present : word ≠ []) (noKeyword : Keyword.ofWord? word = none) :
    ofText word = [.leaf (String.ofList word)] := by
  rw [ofText_of_blankFree leaf.blankFree]
  cases word with
  | nil => contradiction
  | cons c rest =>
      have other : c ≠ '(' := fun same => leaf.noOpening (congrArg some same)
      rw [ofChunk, if_neg other, ofTail, detachClosing_of_getLast? leaf.noClosing]
      simp only [ofWord, noKeyword, Text.unquote?_eq_none leaf.unwrapped]

end Token

theorem joinedChars_eq_flatMap (operator : List Char) (checks : List Check) :
    Check.joinedChars (' ' :: (operator ++ [' '])) checks =
      (checks.map Check.chars).flatMap fun part => ' ' :: (operator ++ ' ' :: part) := by
  induction checks with
  | nil => rfl
  | cons check rest ih =>
      rw [Check.joinedChars, ih, List.map_cons, List.flatMap_cons, List.cons_append,
        List.cons_append, List.append_assoc, List.append_assoc, List.singleton_append,
        List.cons_append]

/-- The parentheses around joined texts are tokens of their own. -/
theorem ofText_parens_joinedChars (operator front : List Char) (checks : List Check) :
    Token.ofText
        ('(' :: (front ++ (Check.joinedChars (' ' :: (operator ++ [' '])) checks ++ [')']))) =
      .openParen :: (Token.ofText front ++
        (checks.flatMap fun check => Token.ofText operator ++ Token.ofText check.chars) ++
          [.closeParen]) := by
  rw [Token.ofText_cons_openParen, ← List.append_assoc, Token.ofText_append_closeParen,
    joinedChars_eq_flatMap, Token.ofText_joined, List.flatMap_map]

/-- A text that spells an expression is read as its check. -/
theorem read_of_tokens_eq {text : String} {expression : Expression}
    (spelled : expression.tokens = Token.ofText text.toList) : read text = expression.tree := by
  have present : Text.isBlankText text.toList = false := by
    rw [Bool.eq_false_iff]
    intro blank
    rw [Token.ofText_of_isBlankText blank] at spelled
    exact expression.tokens_ne_nil spelled
  exact read_eq_tree present spelled

/-- A text with a single word is read as the leaf that the word stands for. -/
theorem read_of_word {text word : String}
    (single : Token.ofText text.toList = [.leaf word]) : read text = Check.ofWord word := by
  have spelled : (Expression.ofFactor (.leaf word)).tokens = Token.ofText text.toList :=
    single.symm
  exact read_of_tokens_eq spelled

/-! ## The factor of a check -/

/-- A factor that spells the canonical text of a check and is read as the check. -/
structure Factor.Writes (factor : Factor) (check : Check) : Prop where
  tokens : factor.tokens = Token.ofText check.chars
  tree : factor.treeWith splicedConjunction = check

theorem Factor.writes_leaf {check : Check} (leaf : Check.LeafWord check.chars)
    (colon : ':' ∈ check.chars) (reads : Check.ofWord? check.chars = some check) :
    (Factor.leaf (String.ofList check.chars)).Writes check := by
  have spelled := Token.ofText_of_leafWord leaf (List.ne_nil_of_mem colon)
    (Token.keyword_of_colon colon)
  refine ⟨spelled.symm, ?_⟩
  rw [Factor.treeWith, Check.ofWord, String.toList_ofList, reads]
  rfl

theorem collapse_eq_conjunction {branches : List Check} (present : branches ≠ []) :
    Check.collapse .allow .and branches = conjunction branches := by
  match branches with
  | [_] => rfl
  | _ :: _ :: _ => rfl

theorem collapse_eq_disjunction {branches : List Check} (present : branches ≠ []) :
    Check.collapse .deny .or branches = disjunction branches := by
  match branches with
  | [_] => rfl
  | _ :: _ :: _ => rfl

namespace Factor

mutual

/-- The factor that the canonical text of a check spells. -/
def ofCheck : Check → Factor
  | .not inner => .not "not" (ofCheck inner)
  | .and (first :: rest) => .parens (.one ((Term.one (ofCheck first)).extend (ofChecks rest)))
  | .or (first :: rest) =>
    .parens ((Expression.ofFactor (ofCheck first)).extend ((ofChecks rest).map .one))
  | other => .leaf other.display

def ofChecks : List Check → List Factor
  | [] => []
  | check :: rest => ofCheck check :: ofChecks rest

end

theorem ofChecks_eq_map (checks : List Check) : ofChecks checks = checks.map ofCheck := by
  induction checks with
  | nil => rfl
  | cons check rest ih => rw [ofChecks, ih, List.map_cons]

/-- A well-formed leaf is written by its own word. -/
theorem writes_ofCheck {leaf : Check} (formed : leaf.WellFormed) (isLeaf : leaf.IsLeaf) :
    (ofCheck leaf).Writes leaf := by
  cases formed with
  | deny => exact ⟨rfl, rfl⟩
  | allow => exact ⟨rfl, rfl⟩
  | not _ => exact isLeaf.elim
  | and _ _ => exact isLeaf.elim
  | or _ _ => exact isLeaf.elim
  | @rule name word =>
      have colon : ':' ∈ (Check.rule name).chars := List.mem_append_left _ (by decide)
      exact writes_leaf word colon (Check.ofWord?_rule name)
  | @role name word =>
      have colon : ':' ∈ (Check.role name).chars := List.mem_append_left _ (by decide)
      exact writes_leaf word colon (Check.ofWord?_role name)
  | @compare kind matcher word noColon notRule notRole =>
      have colon := Check.colon_mem_chars kind matcher
      exact writes_leaf word colon (Check.ofWord?_compare noColon notRule notRole matcher)

/-- The canonical text of a check with well-formed leaves spells its factor. -/
theorem tokens_ofCheck {check : Check}
    (formed : ∀ leaf : Check, leaf.OccursIn check → leaf.IsLeaf → leaf.WellFormed) :
    (ofCheck check).tokens = Token.ofText check.chars := by
  have joined : ∀ (operator : Token) (checks : List Check),
      (∀ check ∈ checks, (ofCheck check).tokens = Token.ofText check.chars) →
        (ofChecks checks).flatMap (fun factor => operator :: factor.tokens) =
          checks.flatMap fun check => [operator] ++ Token.ofText check.chars := by
    intro operator checks every
    rw [ofChecks_eq_map, List.flatMap_map]
    exact List.flatMap_congr fun check member => congrArg (operator :: ·) (every check member)
  induction check using Check.branchInduction with
  | not inner ih =>
      have inside := ih fun leaf occurs => formed leaf (.not occurs)
      have blank : Text.isBlank ' ' = true := rfl
      change _ = Token.ofText (['n', 'o', 't'] ++ ' ' :: _)
      rw [ofCheck, tokens, inside, Token.ofText_append_blank _ blank]
      rfl
  | and branches ih =>
      cases branches with
      | nil => rfl
      | cons first rest =>
          obtain ⟨begun, others⟩ := List.forall_mem_cons.mp fun branch member =>
            ih branch member fun leaf occurs => formed leaf (.and member occurs)
          rw [ofCheck, tokens, Expression.tokens, Term.tokens_extend, Term.tokens, begun,
            joined _ rest others]
          exact (ofText_parens_joinedChars ['a', 'n', 'd'] first.chars rest).symm
  | or branches ih =>
      cases branches with
      | nil => rfl
      | cons first rest =>
          obtain ⟨begun, others⟩ := List.forall_mem_cons.mp fun branch member =>
            ih branch member fun leaf occurs => formed leaf (.or member occurs)
          have terms : (ofChecks rest).flatMap
              (fun factor => .keyword .or "or" :: (Term.one factor).tokens) =
                rest.flatMap fun check => [.keyword .or "or"] ++ Token.ofText check.chars :=
            joined (.keyword .or "or") rest others
          rw [ofCheck, tokens, Expression.tokens_extend, Expression.tokens_ofFactor, begun,
            List.flatMap_map, terms]
          exact (ofText_parens_joinedChars ['o', 'r'] first.chars rest).symm
  | deny => rfl
  | allow => rfl
  | rule name => exact (writes_ofCheck (formed _ .whole trivial) trivial).tokens
  | role name => exact (writes_ofCheck (formed _ .whole trivial) trivial).tokens
  | compare kind matcher => exact (writes_ofCheck (formed _ .whole trivial) trivial).tokens

/-- The factor of a check with well-formed leaves stands for the collapsed check. -/
theorem treeWith_ofCheck {check : Check}
    (formed : ∀ leaf : Check, leaf.OccursIn check → leaf.IsLeaf → leaf.WellFormed) :
    (ofCheck check).treeWith splicedConjunction = check.collapsed := by
  have trees : ∀ checks : List Check,
      (∀ check ∈ checks, (ofCheck check).treeWith splicedConjunction = check.collapsed) →
        (ofChecks checks).map (·.treeWith splicedConjunction) =
          Check.collapsedBranches checks := by
    intro checks every
    rw [ofChecks_eq_map, List.map_map, Check.collapsedBranches_eq_map]
    exact List.map_congr_left every
  induction check using Check.branchInduction with
  | not inner ih =>
      rw [ofCheck, treeWith, ih fun leaf occurs => formed leaf (.not occurs), Check.collapsed]
  | and branches ih =>
      cases branches with
      | nil => rfl
      | cons first rest =>
          obtain ⟨begun, others⟩ := List.forall_mem_cons.mp fun branch member =>
            ih branch member fun leaf occurs => formed leaf (.and member occurs)
          rw [ofCheck, treeWith, Expression.treesWith, Term.treesWith_extend, Term.treesWith,
            begun, trees rest others]
          exact (collapse_eq_conjunction (List.cons_ne_nil _ _)).symm
  | or branches ih =>
      cases branches with
      | nil => rfl
      | cons first rest =>
          obtain ⟨begun, others⟩ := List.forall_mem_cons.mp fun branch member =>
            ih branch member fun leaf occurs => formed leaf (.or member occurs)
          have terms : ((ofChecks rest).map Term.one).map
              (fun term => splicedConjunction (term.treesWith splicedConjunction)) =
                Check.collapsedBranches rest := by
            rw [List.map_map, ← trees rest others]
            exact List.map_congr_left fun factor _ => splicedConjunction_singleton _
          have front : (Expression.ofFactor (ofCheck first)).treesWith splicedConjunction =
              [first.collapsed] := congrArg ([·]) begun
          rw [ofCheck, treeWith, Expression.treesWith_extend, front, terms]
          exact (collapse_eq_disjunction (List.cons_ne_nil _ _)).symm
  | deny => rfl
  | allow => rfl
  | rule name => exact (writes_ofCheck (formed _ .whole trivial) trivial).tree
  | role name => exact (writes_ofCheck (formed _ .whole trivial) trivial).tree
  | compare kind matcher => exact (writes_ofCheck (formed _ .whole trivial) trivial).tree

end Factor

/-- The canonical text of a check with well-formed leaves is read as the collapsed
check. -/
theorem read_display_eq_collapsed {check : Check}
    (formed : ∀ leaf : Check, leaf.OccursIn check → leaf.IsLeaf → leaf.WellFormed) :
    read check.display = check.collapsed := by
  have spelled : (Expression.ofFactor (.ofCheck check)).tokens =
      Token.ofText check.display.toList := by
    rw [Expression.tokens_ofFactor, Factor.tokens_ofCheck formed, Check.display,
      String.toList_ofList]
  rw [read_of_tokens_eq spelled, Expression.tree_ofFactor, Factor.treeWith_ofCheck formed]

end AccessPolicy.Rule
