import AccessPolicy.Proofs.Json.Members
import AccessPolicy.Proofs.Latest
import AccessPolicy.Store

/-! # The definitions in documents

A document defines a name if it has a text, a list or null under it. After documents are
entered into a store, every name has the last of its definitions, and a name that no
document defines has what it had before.
-/

namespace AccessPolicy

/-- The check that a value stands for, if rules can be written like that. -/
def Rule.supported? : Json → Option Check
  | .string text => some (read text)
  | .array items => some (readNested (.array items))
  | .null => some .allow
  | _ => none

theorem Rule.ofValue_of_supported? {value : Json} {check : Check}
    (supported : supported? value = some check) (name : String) :
    ofValue name value = .ok check := by
  cases value with
  | null => cases supported; rfl
  | string text => cases supported; rfl
  | array items => cases supported; rfl
  | bool _ => cases supported
  | number _ => cases supported
  | object _ => cases supported

theorem Rule.ofValue_of_unsupported {value : Json} (unsupported : supported? value = none)
    (name : String) : ofValue name value = .error (.unsupportedRule name value.kind) := by
  cases value with
  | null => cases unsupported
  | string text => cases unsupported
  | array items => cases unsupported
  | bool _ => rfl
  | number _ => rfl
  | object _ => rfl

/-- The check that a document defines a name as. -/
def Document.definition? (document : Document) (name : String) : Option Check :=
  (document.lookup name).bind Rule.supported?

namespace Store

variable {store : Store} {document : Document} {name : String}

theorem get?_enterMember (store : Store) (member : String × Json) (name : String) :
    (store.enterMember member).get? name =
      if name = member.1 then (Rule.supported? member.2).or (store.get? name)
      else store.get? name := by
  unfold enterMember
  cases supported : Rule.supported? member.2 with
  | none => simp only [Rule.ofValue_of_unsupported supported, Option.none_or, ite_self]
  | some check =>
      rw [Rule.ofValue_of_supported? supported]
      exact Table.get?_put store.rules member.1 check name

/-- A document replaces what it defines and nothing else. -/
theorem get?_enterDocument (ascending : document.Pairwise (·.1 < ·.1)) (store : Store)
    (name : String) :
    (store.enterDocument document).get? name =
      (document.definition? name).or (store.get? name) := by
  unfold Document.definition?
  induction document generalizing store with
  | nil => rfl
  | cons member rest ih =>
      obtain ⟨above, later⟩ := List.pairwise_cons.mp ascending
      have entered := ih later (store.enterMember member)
      rw [enterDocument, List.foldl_cons, ← enterDocument, entered, get?_enterMember,
        Table.lookup_entry]
      by_cases same : name = member.1
      · -- The key of the first member is not repeated.
        have alone : rest.lookup name = none := by
          rw [List.lookup_eq_none_iff]
          intro other among
          rw [same, bne_iff_ne]
          exact Std.ne_of_lt (above other among)
        rw [if_pos same, if_pos same, alone]
        rfl
      · rw [if_neg same, if_neg same]

/-- Of several documents the last one that defines a name counts. -/
theorem get?_enterDocuments {documents : List Document}
    (ascending : ∀ document ∈ documents, document.Pairwise (·.1 < ·.1)) (store : Store)
    (name : String) :
    (documents.foldl enterDocument store).get? name =
      (documents.filterMap (·.definition? name)).getLast?.or (store.get? name) := by
  induction documents generalizing store with
  | nil => rfl
  | cons document rest ih =>
      obtain ⟨first, later⟩ := List.forall_mem_cons.mp ascending
      rw [List.foldl_cons, ih later, get?_enterDocument first, getLast?_filterMap_cons_or]

end Store

end AccessPolicy
