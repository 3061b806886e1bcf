import AccessPolicy.Proofs.Evaluation.Acyclic
import AccessPolicy.Proofs.Json.Repetition
import AccessPolicy.Proofs.Loading.Documents
import AccessPolicy.Proofs.Store.Export
import AccessPolicy.Proofs.Text.ByteOrder
import AccessPolicy.Store.Update

/-! # Stores after updates

A store that has gone through any updates has the last definition of every name among
them. A definition is a check that is given, or a value of a document that can be a rule;
of several values that one text writes for a name, only the last is considered. A text
that is no document fails and changes nothing. Values that are no rules are passed over
and reported, one event for each. However a store came about, its names, its size and its
export tell of the same rules.
-/

namespace AccessPolicy

/-! ## What an update defines -/

namespace Document

/-- The check that a member of a document gives a name. -/
def memberDefinition? (name : String) (member : String × Json) : Option Check :=
  if name = member.1 then Rule.supported? member.2 else none

/-- Why a text is no document. -/
inductive Lacks (text : List UInt8) : DocumentFault → Prop where
  | malformed {error : Json.SyntaxError} :
      Json.read text = .error error → Lacks text (.malformed error)
  | notObject {value : Json} :
      Json.read text = .ok value → value.kind ≠ .object → Lacks text .notObject

/-- The members whose values are no rules, with the errors that name them. -/
def unsupported (document : Document) : List (String × PolicyError) :=
  (document.filter fun member => (Rule.supported? member.2).isNone).map fun member =>
    (member.1, .unsupportedRule member.1 member.2.kind)

end Document

namespace Update

/-- The members of documents that an update enters; a repeated key has its last value. -/
def members : Update → Document
  | .text bytes => Table.orderedEntries ((Json.writtenMembers? bytes).getD [])
  | .document entered => entered
  | .rule _ _ | .defaultRule _ => []

/-- The check that an update gives a name. -/
def definition? (name : String) : Update → Option Check
  | .text bytes =>
    ((Json.writtenMembers? bytes).bind (Table.lastValue? name)).bind Rule.supported?
  | .document entered => (entered.filterMap (Document.memberDefinition? name)).getLast?
  | .rule other check => if name = other then some check else none
  | .defaultRule _ => none

/-- The default rule that an update chooses. -/
def defaultRule? : Update → Option String
  | .defaultRule name => some name
  | .text _ | .document _ | .rule _ _ => none

end Update

/-- The rule that an event reports as passed over, and why. -/
def Event.skipped? : Event → Option (String × PolicyError)
  | .skippedRule name error => some (name, error)
  | _ => none

namespace Document

variable {text : List UInt8} {document : Document}

theorem read_eq_ok_iff :
    read text = .ok document ↔ Json.read text = .ok (.object document) := by
  unfold read
  cases Json.read text with
  | error error => simp only [reduceCtorEq]
  | ok value => cases value <;> simp [ofJson]

theorem read_eq_error_iff {fault : DocumentFault} :
    read text = .error fault ↔ Lacks text fault := by
  unfold read
  cases reads : Json.read text with
  | error error =>
      constructor
      · intro same
        cases same
        exact .malformed reads
      · intro lacks
        cases lacks with
        | malformed other => rw [reads] at other; cases other; rfl
        | notObject other _ => rw [reads] at other; cases other
  | ok value =>
      constructor
      · intro same
        cases value <;> cases same <;> exact .notObject reads (by simp [Json.kind])
      · intro lacks
        cases lacks with
        | malformed other => rw [reads] at other; cases other
        | notObject other kind =>
            rw [reads] at other
            cases other
            cases value with
            | object members => exact absurd rfl kind
            | _ => rfl

theorem members_text (reads : read text = .ok document) :
    (Update.text text).members = document := by
  obtain ⟨written, has, same⟩ := Json.read_eq_object_iff.mp (read_eq_ok_iff.mp reads)
  rw [Update.members, has, same]
  rfl

theorem definition?_text (reads : read text = .ok document) (name : String) :
    (Update.text text).definition? name = document.definition? name := by
  obtain ⟨written, has, same⟩ := Json.read_eq_object_iff.mp (read_eq_ok_iff.mp reads)
  rw [Update.definition?, has, definition?, same, Table.lookup_orderedEntries]
  rfl

theorem definition?_of_lacks {fault : DocumentFault} (lacks : Lacks text fault) (name : String) :
    (Update.text text).definition? name = none := by
  have unread : Json.writtenMembers? text = none := by
    by_contra some
    obtain ⟨written, has⟩ := Option.ne_none_iff_exists'.mp some
    have reads := read_eq_ok_iff.mpr (Json.read_eq_object_iff.mpr ⟨written, has, rfl⟩)
    cases reads.symm.trans (read_eq_error_iff.mpr lacks)
  rw [Update.definition?, unread]
  rfl

end Document

/-! ## What is reported -/

namespace Rule

theorem skipped?_of_mem_wordEvents {word : String} {event : Event}
    (reported : event ∈ wordEvents word) : event.skipped? = none := by
  unfold wordEvents at reported
  split at reported
  · rw [List.mem_singleton.mp reported]
    rfl
  · exact absurd reported List.not_mem_nil

theorem skipped?_of_mem_entryEvents {entries : List Json} {event : Event}
    (reported : event ∈ entryEvents entries) : event.skipped? = none := by
  fun_induction entryEvents entries with
  | case1 => exact absurd reported List.not_mem_nil
  | case2 word rest ih =>
      rcases List.mem_append.mp reported with first | later
      · exact skipped?_of_mem_wordEvents first
      · exact ih later
  | case3 entry rest _ =>
      rw [List.mem_singleton.mp reported]
      rfl

/-- Reading a value reports no rule as passed over. -/
theorem skipped?_of_mem_valueEvents {value : Json} {event : Event}
    (reported : event ∈ valueEvents value) : event.skipped? = none := by
  cases value with
  | string text =>
      simp only [valueEvents, textEvents, List.mem_append, List.mem_map] at reported
      rcases reported with ⟨word, _, rfl⟩ | malformed
      · rfl
      · split at malformed
        · rw [List.mem_singleton.mp malformed]
          rfl
        · exact absurd malformed List.not_mem_nil
  | array items =>
      obtain ⟨item, _, reported⟩ := List.mem_flatMap.mp reported
      cases item with
      | null => exact absurd reported List.not_mem_nil
      | string word => exact skipped?_of_mem_wordEvents reported
      | array entries => exact skipped?_of_mem_entryEvents reported
      | _ =>
          rw [List.mem_singleton.mp reported]
          rfl
  | _ => exact absurd reported List.not_mem_nil

end Rule

namespace Document

theorem filterMap_skipped?_memberEvents (member : String × Json) :
    (memberEvents member).filterMap Event.skipped? = unsupported [member] := by
  have silent : (Rule.valueEvents member.2).filterMap Event.skipped? = [] :=
    List.filterMap_eq_nil_iff.mpr fun _ => Rule.skipped?_of_mem_valueEvents
  rw [memberEvents, List.filterMap_append, silent, List.nil_append, unsupported]
  cases supported : Rule.supported? member.2 with
  | none =>
      rw [Rule.ofValue_of_unsupported supported, List.filter_cons_of_pos (by simp [supported])]
      rfl
  | some check =>
      rw [Rule.ofValue_of_supported? supported, List.filter_cons_of_neg (by simp [supported])]
      rfl

/-- Each value that is no rule is reported once, in order. -/
theorem filterMap_skipped?_events (document : Document) :
    document.events.filterMap Event.skipped? = document.unsupported := by
  induction document with
  | nil => rfl
  | cons member rest ih =>
      have split : unsupported (member :: rest) = unsupported [member] ++ unsupported rest := by
        rw [unsupported, unsupported, unsupported, ← List.map_append, ← List.filter_append]
        rfl
      rw [split, ← ih, ← filterMap_skipped?_memberEvents, ← List.filterMap_append]
      rfl

end Document

/-! ## One update and several -/

namespace Store

variable (store : Store) (change : Update)

theorem get?_enterDocument_eq (document : Document) (name : String) :
    (store.enterDocument document).get? name =
      ((document.filterMap (Document.memberDefinition? name)).getLast?).or (store.get? name) := by
  induction document generalizing store with
  | nil => rfl
  | cons member rest ih =>
      rw [getLast?_filterMap_cons_or, enterDocument, List.foldl_cons, ← enterDocument, ih,
        get?_enterMember, Document.memberDefinition?]
      split
      · rfl
      · rw [Option.none_or]

/-- An update fails exactly if it is a text that is no document. -/
theorem apply_eq_error_iff {error : PolicyError} :
    store.apply change = .error error ↔
      ∃ text fault, change = .text text ∧ Document.Lacks text fault ∧
        error = .invalidDocument none fault := by
  cases change with
  | text text =>
      rw [apply]
      cases reads : Document.read text with
      | ok document =>
          simp only [reduceCtorEq, false_iff]
          rintro ⟨_, fault, same, lacks, _⟩
          cases same
          cases reads.symm.trans (Document.read_eq_error_iff.mpr lacks)
      | error fault =>
          have lacks := Document.read_eq_error_iff.mp reads
          constructor
          · intro same
            cases same
            exact ⟨text, fault, rfl, lacks, rfl⟩
          · rintro ⟨_, other, same, lacks, rfl⟩
            cases same
            rw [Document.read_eq_error_iff.mpr lacks] at reads
            cases reads
            rfl
  | document document => simp [apply]
  | rule name check => simp [apply]
  | defaultRule name => simp [apply]

theorem update_of_error {error : PolicyError} (failed : store.apply change = .error error) :
    store.update change = store := by
  rw [update, failed]

theorem update_of_ok {updated : Store} {events : List Event}
    (done : store.apply change = .ok (updated, events)) : store.update change = updated := by
  rw [update, done]

/-- What an update reports as passed over are its values that are no rules. -/
theorem filterMap_skipped?_of_ok {updated : Store} {events : List Event}
    (done : store.apply change = .ok (updated, events)) :
    events.filterMap Event.skipped? = change.members.unsupported := by
  cases change with
  | text text =>
      rw [apply] at done
      cases reads : Document.read text with
      | error fault => rw [reads] at done; cases done
      | ok document =>
          rw [reads] at done
          cases done
          rw [Document.members_text reads]
          exact document.filterMap_skipped?_events
  | document document =>
      cases done
      exact document.filterMap_skipped?_events
  | rule name check => cases done; rfl
  | defaultRule name => cases done; rfl

/-- An update gives names the checks that it defines, and leaves all others. -/
theorem get?_update (name : String) :
    (store.update change).get? name = (change.definition? name).or (store.get? name) := by
  cases change with
  | text text =>
      rw [update, apply]
      cases reads : Document.read text with
      | error fault =>
          rw [Document.definition?_of_lacks (Document.read_eq_error_iff.mp reads)]
          rfl
      | ok document =>
          rw [Document.definition?_text reads]
          exact get?_enterDocument (Json.pairwise_of_read (Document.read_eq_ok_iff.mp reads)) ..
  | document document => exact store.get?_enterDocument_eq document name
  | rule other check =>
      have entered := Table.get?_put store.rules other check name
      rw [Update.definition?]
      split
      · rename_i same
        rw [if_pos same] at entered
        exact entered
      · rename_i differs
        rw [if_neg differs] at entered
        exact entered
  | defaultRule other => rfl

theorem defaultRule_update :
    (store.update change).defaultRule = change.defaultRule?.getD store.defaultRule := by
  cases change with
  | text text =>
      rw [update, apply]
      cases Document.read text with
      | error fault => rfl
      | ok document => exact defaultRule_enterDocument store document
  | document document => exact defaultRule_enterDocument store document
  | rule name check => rfl
  | defaultRule name => rfl

theorem get?_updateAll (changes : List Update) (name : String) :
    (store.updateAll changes).get? name =
      (changes.filterMap (·.definition? name)).getLast?.or (store.get? name) := by
  induction changes generalizing store with
  | nil => rfl
  | cons change rest ih =>
      rw [updateAll, List.foldl_cons, ← updateAll, ih, get?_update, getLast?_filterMap_cons_or]

theorem defaultRule_updateAll (changes : List Update) :
    (store.updateAll changes).defaultRule =
      (changes.filterMap Update.defaultRule?).getLast?.getD store.defaultRule := by
  induction changes generalizing store with
  | nil => rfl
  | cons change rest ih =>
      have latest := getLast?_filterMap_cons_or Update.defaultRule? change rest
        (some store.defaultRule)
      rw [Option.or_some, Option.or_some, Option.or_some] at latest
      rw [updateAll, List.foldl_cons, ← updateAll, ih, defaultRule_update]
      exact (Option.some.inj latest).symm

/-! ## Views of a store -/

/-- All that a store tells of its names is told of the same names, which are listed in the
order of their bytes. -/
structure ViewsAgree (store : Store) : Prop where
  get? : ∀ name, (store.get? name).isSome = true ↔ name ∈ store.names
  contains : ∀ name, store.contains name = true ↔ name ∈ store.names
  ascending : store.names.Pairwise fun first second => Text.utf8 first < Text.utf8 second
  nodup : store.names.Nodup
  size : store.size = store.names.length
  isEmpty : store.isEmpty = true ↔ store.names = []
  toJson : ∃ members, store.toJson = .object members ∧ members.map (·.1) = store.names

theorem isSome_get?_iff (name : String) : (store.get? name).isSome = true ↔ name ∈ store.names := by
  constructor
  · intro defined
    obtain ⟨check, found⟩ := Option.isSome_iff_exists.mp defined
    exact List.mem_map.mpr ⟨_, Table.mem_entries_of_get? found, rfl⟩
  · intro member
    by_contra undefined
    rw [Bool.not_eq_true, Option.isSome_eq_false_iff, Option.isNone_iff_eq_none] at undefined
    exact Table.not_mem_keys_of_get? undefined member

theorem viewsAgree : store.ViewsAgree where
  get? := store.isSome_get?_iff
  contains := store.isSome_get?_iff
  ascending := by
    rw [names, Table.keys, List.pairwise_map]
    exact store.rules.ascending.imp Text.utf8_lt_utf8
  nodup := by
    rw [names, Table.keys, List.Nodup, List.pairwise_map]
    exact store.rules.ascending.imp Std.ne_of_lt
  size := (List.length_map _).symm
  isEmpty := by
    rw [isEmpty, Table.isEmpty, List.isEmpty_iff, names, Table.keys, List.map_eq_nil_iff]
  toJson := ⟨store.exported, store.toJson_eq_exported, store.keys_exported⟩

/-! ## Histories -/

/-- How a store is made: empty, from a text, or from a document; and the updates of an
empty store that this amounts to. -/
inductive Begins : Store → List Update → Prop where
  | empty : Begins .empty []
  | text {text : List UInt8} {store : Store} {events : List Event} :
      Store.empty.apply (.text text) = .ok (store, events) → Begins store [.text text]
  | document (document : Document) : Begins (ofDocument document) [.document document]

theorem Begins.eq_updateAll {start : Store} {first : List Update} (begins : Begins start first) :
    start = Store.empty.updateAll first := by
  cases begins with
  | empty => rfl
  | text made => exact (update_of_ok _ _ made).symm
  | document document => rfl

/-- **The history of a store.** After any updates a name has the check that was last
defined for it, and none if none was; and the default rule is the one that was last
chosen. In every view the store has the same names. A further update fails exactly if it
is a text that is no document, and then changes nothing; otherwise each of its values that
is no rule is reported once. -/
theorem state_after_updates {start : Store} {first : List Update} (begins : Begins start first)
    (changes : List Update) :
    let store := start.updateAll changes
    (∀ name, store.get? name =
      ((first ++ changes).filterMap (·.definition? name)).getLast?) ∧
    (∀ name, store.get? name = none ↔
      ∀ change ∈ first ++ changes, change.definition? name = none) ∧
    store.defaultRule = (changes.filterMap Update.defaultRule?).getLast?.getD "" ∧
    store.ViewsAgree ∧
    ∀ change : Update,
      (∀ error, store.apply change = .error error ↔
        ∃ text fault, change = .text text ∧ Document.Lacks text fault ∧
          error = .invalidDocument none fault) ∧
      (∀ error, store.apply change = .error error → store.update change = store) ∧
      ∀ updated events, store.apply change = .ok (updated, events) →
        store.update change = updated ∧
          events.filterMap Event.skipped? = change.members.unsupported := by
  intro store
  have whole : store = Store.empty.updateAll (first ++ changes) :=
    calc store = (Store.empty.updateAll first).updateAll changes := by rw [← begins.eq_updateAll]
      _ = Store.empty.updateAll (first ++ changes) := List.foldl_append.symm
  have definitions (name : String) : store.get? name =
      ((first ++ changes).filterMap (·.definition? name)).getLast? := by
    rw [whole, get?_updateAll]
    exact Option.or_none
  refine ⟨definitions, fun name => ?_, ?_, store.viewsAgree, fun change => ⟨?_, ?_, ?_⟩⟩
  · rw [definitions, List.getLast?_eq_none_iff, List.filterMap_eq_nil_iff]
  · have made : start.defaultRule = "" := by
      cases begins with
      | empty => rfl
      | text made =>
          rw [← update_of_ok _ _ made]
          exact defaultRule_update _ _
      | document document => exact defaultRule_enterDocument Store.empty document
    rw [← made]
    exact start.defaultRule_updateAll changes
  · exact fun error => store.apply_eq_error_iff change
  · exact fun error => store.update_of_error change
  · exact fun updated events done =>
      ⟨store.update_of_ok change done, store.filterMap_skipped?_of_ok change done⟩

/-! ## A repeated key -/

/-- A text that repeats a key and has a value that is no rule. -/
def repeatingPolicy : List UInt8 :=
  Text.utf8 "\x7b\"edit\":\"@\",\"view\":3,\"edit\":\"!\"\x7d"

def repeatingDocument : Document :=
  [("edit", .string "!"), ("view", .number (.integer ⟨3, by decide⟩))]

theorem read_repeatingPolicy : Document.read repeatingPolicy = .ok repeatingDocument := by
  cbv

/-- A text that is no document, a document with a value that is no rule, and a default
rule. -/
def mixedUpdates : List Update :=
  [.text [], .document [("edit", .bool true), ("view", .null)], .defaultRule "view"]

theorem begins_repeatingPolicy :
    Begins (Store.empty.enterDocument repeatingDocument) [.text repeatingPolicy] := by
  have made : Store.empty.apply (.text repeatingPolicy) =
      .ok (Store.empty.applyDocument repeatingDocument) := by rw [apply, read_repeatingPolicy]
  exact .text made

/-- The last value of the repeated key counts, and no later update defines the name. -/
theorem state_after_updates_mixed :
    let store := (Store.empty.enterDocument repeatingDocument).updateAll mixedUpdates
    Begins (Store.empty.enterDocument repeatingDocument) [.text repeatingPolicy] ∧
      store.get? "edit" = some .deny ∧ store.get? "view" = some .allow ∧
      store.get? "list" = none ∧ store.defaultRule = "view" := by
  intro store
  obtain ⟨definitions, _, default, _⟩ := state_after_updates begins_repeatingPolicy mixedUpdates
  have defined (name : String) : store.get? name =
      ((Update.text repeatingPolicy :: mixedUpdates).filterMap
        (Update.definition? name)).getLast? := definitions name
  simp only [List.filterMap_cons, Document.definition?_text read_repeatingPolicy] at defined
  refine ⟨begins_repeatingPolicy, ?_, ?_, ?_, default⟩
  · rw [defined]; cbv
  · rw [defined]; cbv
  · rw [defined]; cbv

end Store

end AccessPolicy
