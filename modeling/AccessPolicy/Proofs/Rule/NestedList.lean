import AccessPolicy.Proofs.Evaluation.Connectives
import AccessPolicy.Proofs.Rule.Reading

/-! # What a nested list says

A nested list allows when nothing in it counts, or when one of its alternatives does: a
word whose leaf allows, or several words whose leaves all allow. Null and empty lists
count for nothing. Anything else that is no word counts and denies, together with the
words that stand beside it, so a list with mistakes is never taken for an empty one. The
tree of a nested list has no more than two levels above its leaves, and its branches are
those of the items that count, in order.
-/

namespace AccessPolicy.Rule

open Evaluation

/-! ## The branches of a nested list -/

/-- An item that counts for nothing is null or an empty list. -/
def countsForNothing : Json → Bool
  | .null | .array [] => true
  | _ => false

/-- The branch that an item stands for. One entry that is no word makes its whole list
deny. -/
inductive ReadsAs : Json → Check → Prop where
  | word (word : String) : ReadsAs (.string word) (.ofWord word)
  | words {words : List String} (present : words ≠ []) :
      ReadsAs (.array (words.map .string)) (conjunction (words.map .ofWord))
  | entry {entries : List Json} {entry : Json} (member : entry ∈ entries)
      (noWord : entry.kind ≠ .string) : ReadsAs (.array entries) .deny
  | other {item : Json} (kind : item.kind ∈ [.boolean, .number, .object]) : ReadsAs item .deny

theorem leaves_map_string (words : List String) :
    leaves (words.map .string) = .ok (words.map .ofWord) := by
  induction words with
  | nil => rfl
  | cons word rest ih =>
      rw [List.map_cons, leaves, ih]
      rfl

/-- An inner list is made of words, or has an entry that is none. -/
theorem leaves_cases (entries : List Json) :
    (∃ words : List String, entries = words.map .string) ∨
      ∃ entry ∈ entries, entry.kind ≠ .string ∧ leaves entries = .error entry.kind := by
  induction entries with
  | nil => exact .inl ⟨[], rfl⟩
  | cons first rest ih =>
      cases first with
      | string word =>
          rcases ih with ⟨words, rfl⟩ | ⟨entry, member, noWord, fails⟩
          · exact .inl ⟨word :: words, rfl⟩
          · refine .inr ⟨entry, List.mem_cons_of_mem _ member, noWord, ?_⟩
            rw [leaves, fails]
            rfl
      | _ => exact .inr ⟨_, List.mem_cons_self, nofun, rfl⟩

/-- The branch of an inner list of words is the conjunction of their leaves. -/
theorem branch?_words {words : List String} (present : words ≠ []) :
    branch? (.array (words.map .string)) = some (conjunction (words.map .ofWord)) := by
  rw [branch?, conjunction?, leaves_map_string]
  match words with
  | [_] => rfl
  | _ :: _ :: _ => rfl

theorem branch?_of_countsForNothing {item : Json} (nothing : countsForNothing item = true) :
    branch? item = none := by
  unfold countsForNothing at nothing
  split at nothing
  · rfl
  · rfl
  · contradiction

/-- Every item that counts has a branch. -/
theorem exists_branch?_of_counts {item : Json} (counts : countsForNothing item = false) :
    ∃ branch, branch? item = some branch ∧ ReadsAs item branch := by
  cases item with
  | null => contradiction
  | string word => exact ⟨_, rfl, .word word⟩
  | array entries =>
      rcases leaves_cases entries with ⟨words, rfl⟩ | ⟨entry, member, noWord, fails⟩
      · have present : words ≠ [] := by
          rintro rfl
          contradiction
        exact ⟨_, branch?_words present, .words present⟩
      · refine ⟨.deny, ?_, .entry member noWord⟩
        rw [branch?, conjunction?, fails]
  | bool value => exact ⟨_, rfl, .other (by simp [Json.kind])⟩
  | number value => exact ⟨_, rfl, .other (by simp [Json.kind])⟩
  | object members => exact ⟨_, rfl, .other (by simp [Json.kind])⟩

/-- The branches are those of the items that count, in order. -/
theorem forall₂_readsAs (items : List Json) :
    List.Forall₂ ReadsAs (items.filter (!countsForNothing ·)) (items.filterMap branch?) := by
  induction items with
  | nil => exact .nil
  | cons item rest ih =>
      cases counts : countsForNothing item with
      | true =>
          rwa [List.filter_cons_of_neg (by simp [counts]),
            List.filterMap_cons_none (branch?_of_countsForNothing counts)]
      | false =>
          obtain ⟨branch, reads, same⟩ := exists_branch?_of_counts counts
          rw [List.filter_cons_of_pos (by simp [counts]), List.filterMap_cons_some reads]
          exact .cons same ih

theorem exists_readsAs_of_mem_branches {items : List Json} {branch : Check}
    (member : branch ∈ items.filterMap branch?) : ∃ item ∈ items, ReadsAs item branch := by
  obtain ⟨item, among, reads⟩ := List.mem_filterMap.mp member
  cases counts : countsForNothing item with
  | true =>
      rw [branch?_of_countsForNothing counts] at reads
      contradiction
  | false =>
      obtain ⟨_, found, same⟩ := exists_branch?_of_counts counts
      cases reads.symm.trans found
      exact ⟨item, among, same⟩

theorem countsForNothing_of_branches_eq_nil {items : List Json}
    (none : items.filterMap branch? = []) {item : Json} (member : item ∈ items) :
    countsForNothing item = true := by
  by_contra counts
  obtain ⟨branch, reads, _⟩ := exists_branch?_of_counts (Bool.eq_false_iff.mpr counts)
  have among := List.mem_filterMap.mpr ⟨item, member, reads⟩
  rw [none] at among
  contradiction

/-! ## The shape of the tree -/

/-- A word stands as a leaf in a nested list, as an item or in an inner list of words. -/
inductive HasWord (word : String) : Json → Prop where
  | item {items : List Json} : .string word ∈ items → HasWord word (.array items)
  | inner {items : List Json} {words : List String} :
      .array (words.map .string) ∈ items → word ∈ words → HasWord word (.array items)

/-- A leaf, or a conjunction of at least two leaves. -/
inductive FlatBranch (leaf : Check → Prop) : Check → Prop where
  | leaf {check : Check} : leaf check → FlatBranch leaf check
  | and {leaves : List Check} : 2 ≤ leaves.length → (∀ check ∈ leaves, leaf check) →
      FlatBranch leaf (.and leaves)

/-- A leaf, a conjunction of at least two leaves, or a disjunction of at least two of
these. -/
inductive Flat (leaf : Check → Prop) : Check → Prop where
  | branch {check : Check} : FlatBranch leaf check → Flat leaf check
  | or {branches : List Check} : 2 ≤ branches.length →
      (∀ branch ∈ branches, FlatBranch leaf branch) → Flat leaf (.or branches)

section Shape

variable {leaf : Check → Prop}

theorem flatBranch_conjunction {leaves : List Check} (present : leaves ≠ [])
    (every : ∀ check ∈ leaves, leaf check) : FlatBranch leaf (conjunction leaves) := by
  match leaves with
  | [_] => exact .leaf (every _ List.mem_cons_self)
  | _ :: _ :: _ => exact .and (Nat.le_add_left 2 _) every

theorem flat_disjunction {branches : List Check} (allow : leaf .allow)
    (every : ∀ branch ∈ branches, FlatBranch leaf branch) : Flat leaf (disjunction branches) := by
  match branches with
  | [] => exact .branch (.leaf allow)
  | [_] => exact .branch (every _ List.mem_cons_self)
  | _ :: _ :: _ => exact .or (Nat.le_add_left 2 _) every

/-- The tree of a nested list is flat, and its leaves are those of its words besides
`allow` and `deny`. -/
theorem flat_readNested (allow : leaf .allow) (deny : leaf .deny) {value : Json}
    (words : ∀ word, HasWord word value → leaf (.ofWord word)) :
    Flat leaf (readNested value) := by
  cases value with
  | null => exact .branch (.leaf allow)
  | array items =>
      refine flat_disjunction allow fun branch member => ?_
      obtain ⟨item, among, reads⟩ := exists_readsAs_of_mem_branches member
      cases reads with
      | word word => exact .leaf (words word (.item among))
      | @words inner present =>
          have every : ∀ check ∈ inner.map .ofWord, leaf check := by
            intro check found
            obtain ⟨word, inside, rfl⟩ := List.mem_map.mp found
            exact words word (.inner among inside)
          exact flatBranch_conjunction (by simpa using present) every
      | entry => exact .leaf deny
      | other => exact .leaf deny
  | _ => exact .branch (.leaf deny)

end Shape

/-! ## What the tree says -/

/-- An item grants when it is a word that does, or a list of at least one word, all of
which do. -/
inductive Grants (allows : String → Prop) : Json → Prop where
  | word {word : String} : allows word → Grants allows (.string word)
  | words {words : List String} : words ≠ [] → (∀ word ∈ words, allows word) →
      Grants allows (.array (words.map .string))

/-- A nested list allows when there is nothing in it, or an item that grants. -/
inductive ListAllows (allows : String → Prop) : Json → Prop where
  | null : ListAllows allows .null
  | nothing {items : List Json} : (∀ item ∈ items, item = .null ∨ item = .array []) →
      ListAllows allows (.array items)
  | item {items : List Json} {item : Json} : item ∈ items → Grants allows item →
      ListAllows allows (.array items)

theorem countsForNothing_iff {item : Json} :
    countsForNothing item = true ↔ item = .null ∨ item = .array [] := by
  cases item with
  | array entries => cases entries <;> simp [countsForNothing]
  | _ => simp [countsForNothing]

section Decisions

variable {rules : Table Check} {request : Request}

theorem holds_conjunction (truth : String → Bool) (requirements : List Check) :
    (conjunction requirements).holds request truth =
      requirements.all (Check.holds request truth) := by
  unfold conjunction
  split
  · rw [List.all_cons, List.all_nil, Bool.and_true]
  · exact Check.allHold_eq_all request truth requirements

theorem holds_disjunction (truth : String → Bool) (alternatives : List Check) :
    (disjunction alternatives).holds request truth =
      (alternatives.isEmpty || alternatives.any (Check.holds request truth)) := by
  unfold disjunction
  split
  · rfl
  · rw [List.any_cons, List.any_nil, Bool.or_false]
    rfl
  · rename_i several _
    rw [Check.holds, Check.anyHolds_eq_any]
    cases alternatives with
    | nil => exact absurd rfl several
    | cons first rest => rfl

/-- What an allowed branch grants, its item grants. -/
theorem grants_of_allowed {item : Json} {branch : Check} (reads : ReadsAs item branch)
    (allowed : (branch.decide rules request).allowed = true) :
    Grants (fun word => ((Check.ofWord word).decide rules request).allowed = true) item := by
  cases reads with
  | word word => exact .word allowed
  | words present =>
      rw [(equivalent_conjunction _).decide_eq] at allowed
      refine .words present fun word member => ?_
      exact Check.allowed_of_allowed_and allowed (List.mem_map_of_mem member)
  | entry => contradiction
  | other => contradiction

/-- An item grants only if it has a branch that says so. -/
theorem exists_meaning_of_grants {item : Json}
    (grants : Grants (fun word => ((Check.ofWord word).decide rules request).allowed = true) item) :
    ∃ branch, branch? item = some branch ∧ branch.meaning rules request [] = true := by
  cases grants with
  | @word word allowed => exact ⟨_, rfl, ((Check.allowed_iff _).mp allowed).1⟩
  | @words words present allowed =>
      refine ⟨_, branch?_words present, ?_⟩
      rw [Check.meaning, holds_conjunction, List.all_eq_true]
      intro check found
      obtain ⟨word, member, rfl⟩ := List.mem_map.mp found
      exact ((Check.allowed_iff _).mp (allowed word member)).1

theorem listAllows_of_allowed {value : Json}
    (allowed : ((readNested value).decide rules request).allowed = true) :
    ListAllows (fun word => ((Check.ofWord word).decide rules request).allowed = true) value := by
  cases value with
  | null => exact .null
  | array items =>
      by_cases none : items.filterMap branch? = []
      · exact .nothing fun item member =>
          countsForNothing_iff.mp (countsForNothing_of_branches_eq_nil none member)
      · rw [readNested, (equivalent_disjunction none).decide_eq] at allowed
        obtain ⟨branch, member, granted⟩ := Check.exists_allowed_of_allowed_or allowed
        obtain ⟨item, among, reads⟩ := exists_readsAs_of_mem_branches member
        exact .item among (grants_of_allowed reads granted)
  | _ => contradiction

theorem meaning_of_listAllows {value : Json}
    (allows : ListAllows (fun word => ((Check.ofWord word).decide rules request).allowed = true)
      value) : (readNested value).meaning rules request [] = true := by
  cases allows with
  | null => rfl
  | @nothing items nothing =>
      have none : items.filterMap branch? = [] := by
        rw [List.filterMap_eq_nil_iff]
        exact fun item member =>
          branch?_of_countsForNothing (countsForNothing_iff.mpr (nothing item member))
      rw [readNested, none]
      rfl
  | @item items item among grants =>
      obtain ⟨branch, reads, holds⟩ := exists_meaning_of_grants grants
      have member : branch ∈ items.filterMap branch? := List.mem_filterMap.mpr ⟨item, among, reads⟩
      rw [readNested, Check.meaning, holds_disjunction, Bool.or_eq_true, List.any_eq_true]
      exact .inr ⟨branch, member, holds⟩

end Decisions

/-- **What a nested list says.** Within the budget a nested list allows exactly when it is
null, or a list of nothing but null and empty lists, or has an item that is an allowing
word or a list of such words with at least one. Its tree is a leaf, a conjunction of at
least two leaves, or a disjunction of at least two of these: the branches of the items
that count, in order. -/
theorem nested_list_meaning (value : Json) :
    (∀ (rules : Table Check) (request : Request),
      ((readNested value).decide rules request).allowed = true ↔
        ((readNested value).met rules request []).length ≤ greatestSteps ∧
          ListAllows (fun word => ((Check.ofWord word).decide rules request).allowed = true)
            value) ∧
    Flat Check.IsLeaf (readNested value) ∧
    ∀ items, value = .array items →
      ∃ branches, List.Forall₂ ReadsAs (items.filter (!countsForNothing ·)) branches ∧
        readNested value = disjunction branches := by
  refine ⟨fun rules request => ⟨fun allowed => ?_, ?_⟩, ?_, ?_⟩
  · exact ⟨((Check.allowed_iff _).mp allowed).2, listAllows_of_allowed allowed⟩
  · rintro ⟨room, allows⟩
    exact (Check.allowed_iff _).mpr ⟨meaning_of_listAllows allows, room⟩
  · exact flat_readNested trivial trivial fun word _ => Check.isLeaf_ofWord word
  · rintro items rfl
    exact ⟨_, forall₂_readsAs items, rfl⟩

-- The mistake in the one list that counts denies, and nothing else is left to allow.
example : readNested (.array [.null, .array [.string "role:a", .bool true], .array []]) = .deny :=
  rfl

end AccessPolicy.Rule
