import AccessPolicy.Proofs.Loading.Documents
import AccessPolicy.Proofs.Rule.Canonical
import AccessPolicy.Proofs.Rule.NestedList
import AccessPolicy.Store.Update
import Mathlib

/-! # Exported policies

A store is exported as a document that gives every rule by its canonical text. If the
rules are well formed, an empty store has the same rules after the exported document. So
it is with a store that was read from a document, whatever its rule texts are, when the
words of its nested lists could stand in a rule text as well.
-/

namespace AccessPolicy

/-! ## Documents of well-formed rules -/

namespace Rule

open Check (WellFormed)

theorem wellFormed_of_flatBranch {check : Check} (flat : FlatBranch WellFormed check) :
    check.WellFormed := by
  cases flat with
  | leaf formed => exact formed
  | and several formed => exact .and several formed

theorem wellFormed_of_flat {check : Check} (flat : Flat WellFormed check) :
    check.WellFormed := by
  cases flat with
  | branch flat => exact wellFormed_of_flatBranch flat
  | or several flat =>
      exact .or several fun branch member => wellFormed_of_flatBranch (flat branch member)

/-- The words of a nested list that have operands could stand in a rule text. A word
without a colon has none, and may be any text. -/
def HasSingleWords (value : Json) : Prop :=
  ∀ word, HasWord word value → ':' ∈ word.toList → Check.LeafWord word.toList

/-- A value of a document stands for a well-formed rule. Only the words of nested lists
could be others than those of a rule text. -/
theorem wellFormed_of_supported? {value : Json} {check : Check}
    (supported : supported? value = some check) (single : HasSingleWords value) :
    check.WellFormed := by
  cases value with
  | null =>
      cases supported
      exact .allow
  | string text =>
      cases supported
      exact wellFormed_read text
  | array items =>
      cases supported
      refine wellFormed_of_flat (flat_readNested .allow .deny fun word inside => ?_)
      by_cases colon : ':' ∈ word.toList
      · exact Check.wellFormed_ofWord (single word inside colon)
      · exact Check.wellFormed_ofWord_of_noColon colon
  | _ => contradiction

end Rule

namespace Store

/-- All rules of a store are well formed. -/
def WellFormed (store : Store) : Prop :=
  ∀ entry ∈ store.rules.entries, entry.2.WellFormed

variable {store : Store}

theorem wellFormed_enterMember (formed : store.WellFormed) {member : String × Json}
    (single : Rule.HasSingleWords member.2) : (store.enterMember member).WellFormed := by
  unfold enterMember
  cases supported : Rule.supported? member.2 with
  | none =>
      rw [Rule.ofValue_of_unsupported supported]
      exact formed
  | some check =>
      rw [Rule.ofValue_of_supported? supported]
      intro entry among
      rcases Table.mem_putEntry among with rfl | before
      · exact Rule.wellFormed_of_supported? supported single
      · exact formed entry before

theorem wellFormed_enterDocument (formed : store.WellFormed) {document : Document}
    (single : ∀ member ∈ document, Rule.HasSingleWords member.2) :
    (store.enterDocument document).WellFormed := by
  induction document generalizing store with
  | nil => exact formed
  | cons member rest ih =>
      obtain ⟨first, later⟩ := List.forall_mem_cons.mp single
      exact ih (wellFormed_enterMember formed first) later

end Store

/-! ## Entering an exported document -/

/-- A key above all others is entered behind them. -/
theorem Table.putEntry_of_above {α : Type} {key : String} {entries : List (String × α)}
    (above : ∀ entry ∈ entries, entry.1 < key) (value : α) :
    putEntry key value entries = entries ++ [(key, value)] := by
  induction entries with
  | nil => rfl
  | cons head rest ih =>
      obtain ⟨first, later⟩ := List.forall_mem_cons.mp above
      have notLess : ¬ key < head.1 := Std.not_lt.mpr (Std.le_of_lt first)
      have different : key ≠ head.1 := (Std.ne_of_lt first).symm
      rw [putEntry, if_neg notLess, if_neg different, ih later, List.cons_append]

theorem Table.eq_of_entries {α : Type} {left right : Table α}
    (same : left.entries = right.entries) : left = right := by
  cases left
  cases right
  cases same
  rfl

namespace Store

variable {store : Store}

theorem eq_of_fields {left right : Store} (rules : left.rules = right.rules)
    (defaultRule : left.defaultRule = right.defaultRule) : left = right := by
  cases left
  cases right
  cases rules
  cases defaultRule
  rfl

def exportedMember (entry : String × Check) : String × Json :=
  (entry.1, .string entry.2.display)

/-- The members of the exported object. -/
def exported (store : Store) : Document :=
  store.rules.entries.map exportedMember

theorem toJson_eq_exported (store : Store) : store.toJson = .object store.exported := rfl

theorem keys_exported (store : Store) : store.exported.map (·.1) = store.names := by
  rw [exported, List.map_map]
  rfl

/-- A well-formed rule is entered as itself. -/
theorem enterMember_exportedMember {entry : String × Check} (formed : entry.2.WellFormed) :
    store.enterMember (exportedMember entry) = store.insert entry.1 entry.2 := by
  have same : Rule.read entry.2.display = entry.2 := Rule.read_display_of_wellFormed formed
  unfold enterMember exportedMember
  rw [Rule.ofValue, same]

/-- Rules whose names are above those of a store are added behind its own. -/
theorem entries_enterDocument_exportedMember {added : List (String × Check)}
    (ascending : (store.rules.entries ++ added).Pairwise (·.1 < ·.1))
    (formed : ∀ entry ∈ added, entry.2.WellFormed) :
    (store.enterDocument (added.map exportedMember)).rules.entries =
      store.rules.entries ++ added := by
  induction added generalizing store with
  | nil => exact (List.append_nil _).symm
  | cons entry rest ih =>
      obtain ⟨first, later⟩ := List.forall_mem_cons.mp formed
      have above : ∀ other ∈ store.rules.entries, other.1 < entry.1 := fun other before =>
        (List.pairwise_append.mp ascending).2.2 other before entry List.mem_cons_self
      have entered : (store.insert entry.1 entry.2).rules.entries =
          store.rules.entries ++ [entry] := Table.putEntry_of_above above entry.2
      calc (store.enterDocument ((entry :: rest).map exportedMember)).rules.entries
          = ((store.insert entry.1 entry.2).enterDocument
              (rest.map exportedMember)).rules.entries := by
            rw [enterDocument, List.map_cons, List.foldl_cons, enterMember_exportedMember first]
            rfl
        _ = (store.insert entry.1 entry.2).rules.entries ++ rest := by
            refine ih ?_ later
            rwa [entered, List.append_assoc]
        _ = store.rules.entries ++ entry :: rest := by
            rw [entered, List.append_assoc]
            rfl

theorem defaultRule_enterDocument (store : Store) (document : Document) :
    (store.enterDocument document).defaultRule = store.defaultRule := by
  induction document generalizing store with
  | nil => rfl
  | cons member rest ih =>
      have step : (store.enterMember member).defaultRule = store.defaultRule := by
        unfold enterMember
        split <;> rfl
      exact (ih (store.enterMember member)).trans step

/-- The exported document has the rules of the store. -/
theorem rules_ofDocument_exported (formed : store.WellFormed) :
    (ofDocument store.exported).rules = store.rules := by
  have entries : (ofDocument store.exported).rules.entries = store.rules.entries :=
    entries_enterDocument_exportedMember store.rules.ascending formed
  exact Table.eq_of_entries entries

/-- **Exporting and reading back.** A document whose nested lists have single words, with
any rule texts and any values that are no rules, is read as a store. Its export is an
object with the names of the store, and the document with these members gives the same
store again. So both decide every request alike, whichever default rule they have. -/
theorem import_export {text : List UInt8} {document : Document}
    (reads : Document.read text = .ok document)
    (single : ∀ member ∈ document, Rule.HasSingleWords member.2) :
    ∃ (store : Store) (exported : Document),
      empty.apply (.text text) = .ok (store, document.events) ∧
      store.toJson = .object exported ∧ exported.map (·.1) = store.names ∧
      ofDocument exported = store ∧
      ∀ defaultRule name request,
        ((ofDocument exported).withDefault defaultRule).decide name request =
          (store.withDefault defaultRule).decide name request := by
  have formed : (ofDocument document).WellFormed :=
    wellFormed_enterDocument (fun _ among => absurd among List.not_mem_nil) single
  have rules := rules_ofDocument_exported formed
  have defaultRule : (ofDocument (ofDocument document).exported).defaultRule =
      (ofDocument document).defaultRule :=
    (defaultRule_enterDocument empty _).trans (defaultRule_enterDocument empty document).symm
  have same : ofDocument (ofDocument document).exported = ofDocument document :=
    eq_of_fields rules defaultRule
  refine ⟨ofDocument document, (ofDocument document).exported, ?_, toJson_eq_exported _,
    keys_exported _, same, fun _ _ _ => ?_⟩
  · rw [apply, reads]
    rfl
  · rw [same]

/-- A document with a rule text that is no rule, a nested list with a mistake, and a value
that is no rule. -/
def faultyPolicy : List UInt8 :=
  Text.utf8 ("\x7b\"edit\":[[],[\"role:a\",\"( b\"],[\"role:c\",[]]]," ++
    "\"show\":\"or\",\"test\":\x7b\x7d\x7d")

def faultyDocument : Document :=
  [("edit", .array [.array [], .array [.string "role:a", .string "( b"],
    .array [.string "role:c", .array []]]), ("show", .string "or"), ("test", .object [])]

theorem read_faultyPolicy : Document.read faultyPolicy = .ok faultyDocument := by
  cbv

/-- The one word with operands in an inner list of words is a single one. The entry that is
no word keeps the other inner list from having leaves. -/
theorem hasSingleWords_of_mem_faultyDocument {member : String × Json}
    (among : member ∈ faultyDocument) : Rule.HasSingleWords member.2 := by
  intro word inside colon
  simp only [faultyDocument, List.mem_cons, List.not_mem_nil, or_false] at among
  rcases among with rfl | rfl | rfl
  · cases inside with
    | item listed => simp only [List.mem_cons, reduceCtorEq, List.not_mem_nil, or_self] at listed
    | @inner _ words listed among =>
        simp only [List.mem_cons, Json.array.injEq, List.not_mem_nil, or_false] at listed
        rcases listed with none | same | mixed
        · rw [List.map_eq_nil_iff.mp none] at among
          contradiction
        · have known : words = ["role:a", "( b"] :=
            List.map_injective_iff.mpr (fun _ _ => Json.string.inj) same
          subst known
          simp only [List.mem_cons, List.not_mem_nil, or_false] at among
          rcases among with rfl | rfl
          · decide
          · contradiction
        · have noWord : Json.array [] ∈ words.map .string := by
            rw [mixed]
            exact List.mem_cons_of_mem _ List.mem_cons_self
          obtain ⟨_, _, same⟩ := List.mem_map.mp noWord
          contradiction
  · cases inside
  · cases inside

theorem exported_faultyDocument :
    (ofDocument faultyDocument).exported =
      [("edit", .string "((role:a and !) or !)"), ("show", .string "!")] := by
  have malformed : Rule.read "or" = .deny := by cbv
  simp only [faultyDocument, ofDocument, enterDocument, List.foldl, enterMember, Rule.ofValue,
    malformed]
  rfl

/-- The mistakes stay denials and the value that is no rule is left out. -/
theorem import_export_faultyPolicy :
    Document.read faultyPolicy = .ok faultyDocument ∧
      ∃ (store : Store) (exported : Document),
        empty.apply (.text faultyPolicy) = .ok (store, faultyDocument.events) ∧
        store.toJson = .object exported ∧
        exported = [("edit", .string "((role:a and !) or !)"), ("show", .string "!")] ∧
        ofDocument exported = store := by
  have single : ∀ member ∈ faultyDocument, Rule.HasSingleWords member.2 :=
    fun _ among => hasSingleWords_of_mem_faultyDocument among
  obtain ⟨store, exported, applied, printed, _, same, _⟩ := import_export read_faultyPolicy single
  refine ⟨read_faultyPolicy, store, exported, applied, printed, ?_, same⟩
  have entered : empty.apply (.text faultyPolicy) =
      .ok (ofDocument faultyDocument, faultyDocument.events) := by
    rw [apply, read_faultyPolicy]
    rfl
  cases entered.symm.trans applied
  cases printed
  exact exported_faultyDocument

end Store

end AccessPolicy
