import AccessPolicy.Proofs.Evaluation.Equivalence
import AccessPolicy.Proofs.Rule.Parsing

/-! # What a rule text is read as

A text that is not blank is read as the check of a derivation of its tokens, and
denies when their kinds have none. A conjunction that takes up the factors after it
is evaluated like the conjunction of all factors, so every decision is the one that
the usual precedence of the operators gives.
-/

namespace AccessPolicy.Rule

/-! ## Derivations of kinds and derivations of tokens -/

mutual

/-- Tokens of the kinds of a factor are those of a factor. -/
theorem Factor.exists_tokens_eq :
    ∀ (factor : Factor) (tokens : List Token),
      tokens.map Token.kind = factor.tokens.map Token.kind →
        ∃ spelled : Factor, spelled.tokens = tokens
  | .leaf word, tokens, same => by
      obtain ⟨token, rfl, kind⟩ := List.map_eq_singleton_iff.mp same
      cases token with
      | leaf other => exact ⟨.leaf other, rfl⟩
      | _ => contradiction
  | .not spelling inner, tokens, same => by
      obtain ⟨token, rest, rfl, kind, kinds⟩ := List.map_eq_cons_iff.mp same
      obtain ⟨spelled, rfl⟩ := inner.exists_tokens_eq rest kinds
      cases token with
      | keyword operator word =>
          obtain rfl := Token.Kind.keyword.inj kind
          exact ⟨.not word spelled, rfl⟩
      | _ => contradiction
  | .parens inner, tokens, same => by
      rw [Factor.tokens, List.map_cons, List.map_append] at same
      obtain ⟨first, rest, rfl, opened, kinds⟩ := List.map_eq_cons_iff.mp same
      obtain ⟨middle, closing, rfl, inside, closed⟩ := List.map_eq_append_iff.mp kinds
      obtain ⟨last, rfl, kind⟩ := List.map_eq_singleton_iff.mp closed
      obtain ⟨spelled, rfl⟩ := inner.exists_tokens_eq middle inside
      cases first with
      | openParen =>
          cases last with
          | closeParen => exact ⟨.parens spelled, rfl⟩
          | _ => contradiction
      | _ => contradiction

theorem Term.exists_tokens_eq :
    ∀ (term : Term) (tokens : List Token),
      tokens.map Token.kind = term.tokens.map Token.kind →
        ∃ spelled : Term, spelled.tokens = tokens
  | .one factor, tokens, same => by
      obtain ⟨spelled, rfl⟩ := factor.exists_tokens_eq tokens same
      exact ⟨.one spelled, rfl⟩
  | .snoc front spelling last, tokens, same => by
      rw [Term.tokens, List.map_append] at same
      obtain ⟨before, rest, rfl, kinds, others⟩ := List.map_eq_append_iff.mp same
      obtain ⟨token, after, rfl, kind, factors⟩ := List.map_eq_cons_iff.mp others
      obtain ⟨first, rfl⟩ := front.exists_tokens_eq before kinds
      obtain ⟨second, rfl⟩ := last.exists_tokens_eq after factors
      cases token with
      | keyword operator word =>
          obtain rfl := Token.Kind.keyword.inj kind
          exact ⟨.snoc first word second, rfl⟩
      | _ => contradiction

theorem Expression.exists_tokens_eq :
    ∀ (expression : Expression) (tokens : List Token),
      tokens.map Token.kind = expression.tokens.map Token.kind →
        ∃ spelled : Expression, spelled.tokens = tokens
  | .one term, tokens, same => by
      obtain ⟨spelled, rfl⟩ := term.exists_tokens_eq tokens same
      exact ⟨.one spelled, rfl⟩
  | .snoc front spelling last, tokens, same => by
      rw [Expression.tokens, List.map_append] at same
      obtain ⟨before, rest, rfl, kinds, others⟩ := List.map_eq_append_iff.mp same
      obtain ⟨token, after, rfl, kind, terms⟩ := List.map_eq_cons_iff.mp others
      obtain ⟨first, rfl⟩ := front.exists_tokens_eq before kinds
      obtain ⟨second, rfl⟩ := last.exists_tokens_eq after terms
      cases token with
      | keyword operator word =>
          obtain rfl := Token.Kind.keyword.inj kind
          exact ⟨.snoc first word second, rfl⟩
      | _ => contradiction

end

/-- Whether tokens have a derivation depends on their kinds only. -/
theorem derives_map_kind_iff (tokens : List Token) :
    Derives (tokens.map Token.kind) ↔ ∃ expression : Expression, expression.tokens = tokens := by
  constructor
  · rintro ⟨expression, kinds⟩
    exact expression.exists_tokens_eq tokens kinds.symm
  · rintro ⟨expression, rfl⟩
    exact ⟨expression, rfl⟩

/-! ## Decisions by precedence -/

theorem equivalent_conjunction (requirements : List Check) :
    Check.Equivalent (conjunction requirements) (.and requirements) := by
  unfold conjunction
  split
  · exact (Check.Equivalent.and_singleton _).symm
  · exact .refl _

/-- A conjunction that takes up the factors after it is evaluated like the
conjunction of all factors. -/
theorem equivalent_splicedConjunction (requirements : List Check) :
    Check.Equivalent (splicedConjunction requirements) (.and requirements) := by
  unfold splicedConjunction
  split
  · exact .and_append _ _
  · exact equivalent_conjunction requirements

theorem equivalent_disjunction {alternatives : List Check} (present : alternatives ≠ []) :
    Check.Equivalent (disjunction alternatives) (.or alternatives) := by
  unfold disjunction
  split
  · contradiction
  · exact (Check.Equivalent.or_singleton _).symm
  · exact .refl _

theorem disjunction_equivalent {first second : List Check} (present : first ≠ [])
    (same : List.Forall₂ Check.Equivalent first second) :
    Check.Equivalent (disjunction first) (disjunction second) := by
  have other : second ≠ [] := by
    rintro rfl
    cases same
    exact present rfl
  exact ((equivalent_disjunction present).trans (.or same)).trans
    (equivalent_disjunction other).symm

mutual

/-- The check of a factor is evaluated by precedence. -/
theorem Factor.equivalent_treeWith :
    ∀ factor : Factor, Check.Equivalent (factor.treeWith splicedConjunction)
      (factor.treeWith conjunction)
  | .leaf _ => .refl _
  | .not _ inner => inner.equivalent_treeWith.not
  | .parens inner => disjunction_equivalent (inner.treesWith_ne_nil _) inner.equivalent_treesWith

theorem Term.equivalent_treesWith :
    ∀ term : Term, List.Forall₂ Check.Equivalent (term.treesWith splicedConjunction)
      (term.treesWith conjunction)
  | .one factor => .cons factor.equivalent_treeWith .nil
  | .snoc front _ last =>
      List.rel_append front.equivalent_treesWith (.cons last.equivalent_treeWith .nil)

theorem Expression.equivalent_treesWith :
    ∀ expression : Expression,
      List.Forall₂ Check.Equivalent (expression.treesWith splicedConjunction)
        (expression.treesWith conjunction)
  | .one term => by
      have factors := Check.Equivalent.and term.equivalent_treesWith
      refine .cons ?_ .nil
      exact ((equivalent_conjunction _).trans factors).trans (equivalent_conjunction _).symm
  | .snoc front _ last => by
      have factors := Check.Equivalent.and last.equivalent_treesWith
      refine List.rel_append front.equivalent_treesWith (.cons ?_ .nil)
      exact ((equivalent_splicedConjunction _).trans factors).trans (equivalent_conjunction _).symm

end

theorem Expression.equivalent_plainTree (expression : Expression) :
    Check.Equivalent expression.tree expression.plainTree :=
  disjunction_equivalent (expression.treesWith_ne_nil _) expression.equivalent_treesWith

/-! ## Reading a text -/

/-- A text that is not blank and has a derivation is read as the check of it. -/
theorem read_eq_tree {text : String} (present : Text.isBlankText text.toList = false)
    {expression : Expression} (spelled : expression.tokens = Token.ofText text.toList) :
    read text = expression.tree := by
  have accepted : parse? text = some expression.tree :=
    (Stack.check?_ofTokens_eq_some_iff _ _).mpr ⟨expression, spelled, rfl⟩
  simp only [read, present, accepted, Option.getD_some, Bool.false_eq_true, ↓reduceIte]

theorem read_eq_deny {text : String} (present : Text.isBlankText text.toList = false)
    (underivable : ¬ Derives ((Token.ofText text.toList).map Token.kind)) :
    read text = .deny := by
  have rejected : parse? text = none := by
    rw [Option.eq_none_iff_forall_ne_some]
    intro check accepted
    obtain ⟨expression, spelled, _⟩ := (Stack.check?_ofTokens_eq_some_iff _ _).mp accepted
    exact underivable ((derives_map_kind_iff _).mpr ⟨expression, spelled⟩)
  simp only [read, present, rejected, Option.getD_none, Bool.false_eq_true, ↓reduceIte]

/-- **The rules that are read.** A text that is not blank denies when the kinds of its
tokens have no derivation. When they have one, its tokens have one too, and with each
derivation of its tokens the text is read as the check of the derivation, which
decides every request as the precedence of the operators says. -/
theorem read_by_grammar {text : String} (present : Text.isBlankText text.toList = false) :
    (¬ Derives ((Token.ofText text.toList).map Token.kind) → read text = .deny) ∧
      (Derives ((Token.ofText text.toList).map Token.kind) →
        ∃ expression : Expression, expression.tokens = Token.ofText text.toList) ∧
      ∀ expression : Expression, expression.tokens = Token.ofText text.toList →
        read text = expression.tree ∧
          ∀ (rules : Table Check) (request : Request),
            (read text).decide rules request = expression.plainTree.decide rules request := by
  refine ⟨read_eq_deny present, (derives_map_kind_iff _).mp, ?_⟩
  intro expression spelled
  have tree := read_eq_tree present spelled
  refine ⟨tree, fun rules request => ?_⟩
  rw [tree]
  exact expression.equivalent_plainTree.decide_eq rules request

/-- A conjunction that begins a later alternative takes up the factor after it. -/
theorem read_by_grammar_spliced :
    Text.isBlankText "role:a or (role:b and role:c) and not role:d".toList = false ∧
      read "role:a or (role:b and role:c) and not role:d" =
        .or [.role "a", .and [.role "b", .role "c", .not (.role "d")]] := by
  have present : Text.isBlankText "role:a or (role:b and role:c) and not role:d".toList = false :=
    by decide
  refine ⟨present, ?_⟩
  refine ((read_by_grammar present).2.2 (.snoc (.one (.one (.leaf "role:a"))) "or"
    (.snoc (.one (.parens (.one (.snoc (.one (.leaf "role:b")) "and" (.leaf "role:c")))))
      "and" (.not "not" (.leaf "role:d")))) ?_).1
  decide

end AccessPolicy.Rule
