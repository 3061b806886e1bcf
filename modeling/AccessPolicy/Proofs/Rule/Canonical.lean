import AccessPolicy.Proofs.Rule.Spelling
import Mathlib.Tactic.TFAE

/-! # Canonical rule texts

The canonical text of a well-formed check spells a factor of it, so it is read as the
check itself. What any text is read as is well formed, so the canonical texts of the
checks that are read determine them. The canonical text of any other check with such
leaves is read as a check that is evaluated in the same way.
-/

namespace AccessPolicy.Rule

/-! ## The words of leaves -/

namespace Token

theorem ofWord_eq_leaf {chunk : List Char} {word : String} (same : ofWord chunk = .leaf word) :
    word.toList = chunk ∧ Text.unquote? chunk = none := by
  rw [ofWord] at same
  split at same
  · contradiction
  · split at same
    · contradiction
    · rename_i unquoted
      obtain rfl := Token.leaf.inj same
      exact ⟨String.toList_ofList, unquoted⟩

theorem leafWord_of_mem_ofTail {chunk : List Char} {word : String}
    (free : Text.BlankFree chunk) (opens : chunk.head? ≠ some '(')
    (member : .leaf word ∈ ofTail chunk) : Check.LeafWord word.toList := by
  obtain ⟨count, whole, detached, ends⟩ := detachClosing_spec chunk
  rw [ofTail] at member
  generalize detachClosing chunk = parts at whole detached ends member
  have outside : .leaf word ∉ parts.2 := by
    rw [detached]
    intro inside
    have same := List.eq_of_mem_replicate inside
    contradiction
  obtain ⟨_ | ⟨first, inner⟩, closing⟩ := parts
  · exact absurd member outside
  · rcases List.mem_cons.mp member with same | inside
    · obtain ⟨spelled, unquoted⟩ := ofWord_eq_leaf same.symm
      subst whole
      rw [spelled]
      exact ⟨(List.forall_mem_append.mp free).1, opens, ends,
        Text.not_wrapped_of_unquote?_eq_none unquoted⟩
    · exact absurd inside outside

theorem leafWord_of_mem_ofChunk {chunk : List Char} {word : String}
    (free : Text.BlankFree chunk) (member : .leaf word ∈ ofChunk chunk) :
    Check.LeafWord word.toList := by
  induction chunk with
  | nil => exact absurd member List.not_mem_nil
  | cons c rest ih =>
      rw [ofChunk] at member
      by_cases opens : c = '('
      · rw [if_pos opens] at member
        rcases List.mem_cons.mp member with same | inside
        · contradiction
        · exact ih (List.forall_mem_cons.mp free).2 inside
      · rw [if_neg opens] at member
        exact leafWord_of_mem_ofTail free (fun same => opens (Option.some.inj same)) member

/-- The leaves of every text are single words. -/
theorem leafWord_of_mem_ofText {text : List Char} {word : String}
    (member : .leaf word ∈ ofText text) : Check.LeafWord word.toList := by
  induction text using Text.wordInduction with
  | last chunk free =>
      rw [ofText_of_blankFree free] at member
      exact leafWord_of_mem_ofChunk free member
  | next chunk c rest free blank ih =>
      rw [ofText_append_blank _ blank, ofText_of_blankFree free] at member
      rcases List.mem_append.mp member with first | later
      · exact leafWord_of_mem_ofChunk free first
      · exact ih later

end Token

/-! ## What is read is well formed -/

section Read

open Check (WellFormed)

theorem wellFormed_conjunction {requirements : List Check} (present : requirements ≠ [])
    (formed : ∀ requirement ∈ requirements, WellFormed requirement) :
    WellFormed (conjunction requirements) := by
  match requirements with
  | [requirement] => exact formed requirement List.mem_cons_self
  | _ :: _ :: _ => exact .and (Nat.le_add_left 2 _) formed

theorem wellFormed_disjunction {alternatives : List Check} (present : alternatives ≠ [])
    (formed : ∀ alternative ∈ alternatives, WellFormed alternative) :
    WellFormed (disjunction alternatives) := by
  match alternatives with
  | [alternative] => exact formed alternative List.mem_cons_self
  | _ :: _ :: _ => exact .or (Nat.le_add_left 2 _) formed

theorem wellFormed_splicedConjunction {requirements : List Check} (present : requirements ≠ [])
    (formed : ∀ requirement ∈ requirements, WellFormed requirement) :
    WellFormed (splicedConjunction requirements) := by
  unfold splicedConjunction
  split
  · rename_i branches rest
    obtain ⟨first, others⟩ := List.forall_mem_cons.mp formed
    cases first with
    | and several inside =>
        refine .and ?_ (List.forall_mem_append.mpr ⟨inside, others⟩)
        rw [List.length_append]
        omega
  · exact wellFormed_conjunction present formed

mutual

/-- The check of a factor whose leaves are single words is well formed. -/
theorem Factor.wellFormed_treeWith : ∀ factor : Factor,
    (∀ word, .leaf word ∈ factor.tokens → Check.LeafWord word.toList) →
      WellFormed (factor.treeWith splicedConjunction)
  | .leaf word, leaves => Check.wellFormed_ofWord (leaves word List.mem_cons_self)
  | .not _ inner, leaves =>
      .not (inner.wellFormed_treeWith fun word member =>
        leaves word (List.mem_cons_of_mem _ member))
  | .parens inner, leaves =>
      wellFormed_disjunction (inner.treesWith_ne_nil _)
        (inner.wellFormed_treesWith fun word member =>
          leaves word (List.mem_cons_of_mem _ (List.mem_append_left _ member)))

theorem Term.wellFormed_treesWith : ∀ term : Term,
    (∀ word, .leaf word ∈ term.tokens → Check.LeafWord word.toList) →
      ∀ requirement ∈ term.treesWith splicedConjunction, WellFormed requirement
  | .one factor, leaves => List.forall_mem_singleton.mpr (factor.wellFormed_treeWith leaves)
  | .snoc front _ last, leaves => by
      have before := front.wellFormed_treesWith fun word member =>
        leaves word (List.mem_append_left _ member)
      have added := last.wellFormed_treeWith fun word member =>
        leaves word (List.mem_append_right _ (List.mem_cons_of_mem _ member))
      exact List.forall_mem_append.mpr ⟨before, List.forall_mem_singleton.mpr added⟩

theorem Expression.wellFormed_treesWith : ∀ expression : Expression,
    (∀ word, .leaf word ∈ expression.tokens → Check.LeafWord word.toList) →
      ∀ alternative ∈ expression.treesWith splicedConjunction, WellFormed alternative
  | .one term, leaves =>
      List.forall_mem_singleton.mpr
        (wellFormed_conjunction (term.treesWith_ne_nil _) (term.wellFormed_treesWith leaves))
  | .snoc front _ last, leaves => by
      have before := front.wellFormed_treesWith fun word member =>
        leaves word (List.mem_append_left _ member)
      have added := last.wellFormed_treesWith fun word member =>
        leaves word (List.mem_append_right _ (List.mem_cons_of_mem _ member))
      have joined := wellFormed_splicedConjunction (last.treesWith_ne_nil _) added
      exact List.forall_mem_append.mpr ⟨before, List.forall_mem_singleton.mpr joined⟩

end

/-- Every text is read as a well-formed check. -/
theorem wellFormed_read (text : String) : (read text).WellFormed := by
  rw [read]
  split
  · exact .allow
  · cases accepted : parse? text with
    | none => exact .deny
    | some check =>
        obtain ⟨expression, spelled, rfl⟩ :=
          (Stack.check?_ofTokens_eq_some_iff _ _).mp accepted
        refine wellFormed_disjunction (expression.treesWith_ne_nil _)
          (expression.wellFormed_treesWith fun word member => ?_)
        rw [spelled] at member
        exact Token.leafWord_of_mem_ofText member

end Read

/-! ## Reading canonical texts -/

/-- The canonical text of a well-formed check is read as the check. -/
theorem read_display_of_wellFormed {check : Check} (formed : check.WellFormed) :
    read check.display = check := by
  have whole : read check.display = check.collapsed :=
    read_display_eq_collapsed fun _ occurs _ => formed.of_occursIn occurs
  rw [whole, formed.collapsed_eq]

/-- **Canonical texts.** The checks that some text is read as are those that their own
canonical text is read as, and are the well-formed checks. So reading the canonical text
of what was read changes nothing. -/
theorem canonical_text :
    (∀ check : Check,
      [∃ text : String, read text = check, read check.display = check,
        check.WellFormed].TFAE) ∧
      ∀ text : String, read (read text).display = read text := by
  refine ⟨fun check => ?_, fun text => read_display_of_wellFormed (wellFormed_read text)⟩
  tfae_have 1 → 3 := by
    rintro ⟨text, rfl⟩
    exact wellFormed_read text
  tfae_have 3 → 2 := read_display_of_wellFormed
  tfae_have 2 → 1 := fun same => ⟨check.display, same⟩
  tfae_finish

/-! ## Conjunctions and disjunctions of any size -/

/-- If the leaves of a check are read back from their own texts, its canonical text is read
as the collapsed check. -/
theorem read_display_of_leaves {check : Check}
    (leaves : ∀ leaf : Check, leaf.OccursIn check → leaf.IsLeaf → read leaf.display = leaf) :
    read check.display = check.collapsed := by
  have formed : ∀ leaf : Check, leaf.OccursIn check → leaf.IsLeaf → leaf.WellFormed := by
    intro leaf occurs isLeaf
    rw [← leaves leaf occurs isLeaf]
    exact wellFormed_read leaf.display
  exact read_display_eq_collapsed formed

/-- **Canonical texts keep decisions.** A check may have conjunctions and disjunctions of
any number of branches, so that its canonical text is read as another one. If its leaves
are read back from their own texts, both decide every request alike, with the same
reports, also where a chain of references is cut or the budget is exceeded. -/
theorem decide_read_display (check : Check)
    (leaves : ∀ leaf : Check, leaf.OccursIn check → leaf.IsLeaf → read leaf.display = leaf)
    (rules : Table Check) (request : Request) :
    (read check.display).decide rules request = check.decide rules request := by
  rw [read_display_of_leaves leaves]
  exact (check.equivalent_collapsed.decide_eq rules request).symm

/-- A conjunction with branches that are themselves of none or one. -/
def unevenCheck : Check :=
  .not (.and [.or [.rule "loop"], .or [], .and [.role "member"]])

theorem leaf_of_unevenCheck {leaf : Check} (occurs : leaf.OccursIn unevenCheck)
    (isLeaf : leaf.IsLeaf) : leaf = .rule "loop" ∨ leaf = .role "member" := by
  cases occurs with
  | whole => exact isLeaf.elim
  | not occurs =>
      cases occurs with
      | whole => exact isLeaf.elim
      | and member occurs =>
          simp only [List.mem_cons, List.not_mem_nil, or_false] at member
          rcases member with rfl | rfl | rfl
          · cases occurs with
            | whole => exact isLeaf.elim
            | or member occurs =>
                cases List.mem_singleton.mp member
                cases occurs
                exact .inl rfl
          · cases occurs with
            | whole => exact isLeaf.elim
            | or member _ => exact absurd member List.not_mem_nil
          · cases occurs with
            | whole => exact isLeaf.elim
            | and member occurs =>
                cases List.mem_singleton.mp member
                cases occurs
                exact .inr rfl

/-- Its text is read as another check. A rule that refers to itself is cut in both, and as
it is negated, both allow. -/
theorem decide_read_display_unevenCheck :
    let rules := Table.empty.put "loop" (.rule "loop")
    read unevenCheck.display = .not (.and [.rule "loop", .deny, .role "member"]) ∧
      (read unevenCheck.display).decide rules ⟨.null, .null⟩ =
        unevenCheck.decide rules ⟨.null, .null⟩ ∧
      unevenCheck.decide rules ⟨.null, .null⟩ =
        ⟨true, [.cyclicReference "loop" ["loop"]]⟩ := by
  intro rules
  have leaves : ∀ leaf : Check, leaf.OccursIn unevenCheck → leaf.IsLeaf →
      read leaf.display = leaf := by
    intro leaf occurs isLeaf
    rcases leaf_of_unevenCheck occurs isLeaf with rfl | rfl
    · have single : Token.ofText "rule:loop".toList = [.leaf "rule:loop"] := rfl
      exact read_of_word single
    · have single : Token.ofText "role:member".toList = [.leaf "role:member"] := rfl
      exact read_of_word single
  exact ⟨read_display_of_leaves leaves, decide_read_display unevenCheck leaves _ _, rfl⟩

end AccessPolicy.Rule
