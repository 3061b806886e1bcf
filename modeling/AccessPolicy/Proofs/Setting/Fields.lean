import AccessPolicy.Proofs.Latest
import AccessPolicy.Settings
import Mathlib

/-! # The fields of the policy

The policy is a table among other settings, and some of its entries are the fields that
count. An assignment to such a field changes that field only, an assignment that leads
elsewhere changes none, and a table laid over another one gives the fields that it has.
-/

namespace AccessPolicy.Setting

/-! ## Names in one case -/

theorem foldChar_of_ne {c : Char} (other : c ≠ '\u212a') : foldChar c = c.toLower :=
  if_neg other

theorem toLower_ne_kelvin {c : Char} (other : c ≠ '\u212a') : c.toLower ≠ '\u212a' := by
  intro same
  have noLetter : c.isAlpha = false := by
    rw [← Char.isLower_toLower_eq_isAlpha, same]
    decide
  have noUpper : ¬ c.isUpper = true := by
    simp only [Char.isAlpha, Bool.or_eq_false_iff] at noLetter
    simp [noLetter.1]
  exact other ((Char.toLower_eq_of_not_isUpper noUpper).symm.trans same)

theorem foldChar_foldChar (c : Char) : foldChar (foldChar c) = foldChar c := by
  by_cases kelvin : c = '\u212a'
  · subst kelvin
    decide
  · rw [foldChar_of_ne kelvin, foldChar_of_ne (toLower_ne_kelvin kelvin),
      Char.toLower_toLower_eq_toLower]

theorem foldName_foldName (name : String) : foldName (foldName name) = foldName name := by
  simp only [foldName, String.toList_ofList, List.map_map, Function.comp_def, foldChar_foldChar]

/-- Entries in ascending order, with names in the case in which they are compared. -/
structure Ordered (entries : List (String × Setting)) : Prop where
  ascending : entries.Pairwise (·.1 < ·.1)
  folded : ∀ entry ∈ entries, foldName entry.1 = entry.1

namespace Ordered

theorem nil : Ordered [] :=
  ⟨.nil, by simp⟩

theorem put {entries : List (String × Setting)} (ordered : Ordered entries) (name : String)
    (value : Setting) : Ordered (Table.putEntry (foldName name) value entries) where
  ascending := Table.pairwise_putEntry _ _ ordered.ascending
  folded entry member := by
    rcases Table.mem_putEntry member with rfl | earlier
    · exact foldName_foldName name
    · exact ordered.folded entry earlier

theorem entriesOver {existing : List (String × Setting)} (ordered : Ordered existing)
    (entries : List (String × Setting)) : Ordered (entriesOver existing entries) := by
  induction entries generalizing existing with
  | nil => exact ordered
  | cons entry rest ih => exact ih (ordered.put ..)

theorem laidOver {existing : Option Setting}
    (ordered : Ordered ((existing.map entries).getD [])) (value : Setting) :
    Ordered (value.laidOver existing).entries := by
  cases value with
  | table entries =>
      cases entries with
      | nil =>
          cases existing with
          | none => exact nil
          | some setting => exact ordered
      | cons first rest => exact ordered.entriesOver (first :: rest)
  | _ => exact nil

theorem assign {existing : Option Setting}
    (ordered : Ordered ((existing.map entries).getD [])) (value : Setting) (steps : List Step) :
    Ordered (assign value steps existing).entries := by
  match steps with
  | [] => exact ordered.laidOver value
  | .name name :: rest => exact ordered.put ..
  | [.position _] => exact nil
  | .position _ :: _ :: _ => exact nil

end Ordered

/-- A table laid over another one gives what is under its names. -/
theorem lookup_entriesOver {entries : List (String × Setting)} (ordered : Ordered entries)
    (existing : List (String × Setting)) (name : String) :
    (entriesOver existing entries).lookup name =
      match entries.lookup name with
      | some value => some (value.laidOver (existing.lookup name))
      | none => existing.lookup name := by
  induction entries generalizing existing with
  | nil => rfl
  | cons entry rest ih =>
      obtain ⟨first, value⟩ := entry
      obtain ⟨above, later⟩ := List.pairwise_cons.mp ordered.ascending
      obtain ⟨folded, others⟩ := List.forall_mem_cons.mp ordered.folded
      rw [entriesOver, ih ⟨later, others⟩, Table.lookup_entry, Table.lookup_putEntry, folded]
      by_cases same : name = first
      · -- The first name is not repeated.
        have alone : rest.lookup name = none := by
          rw [List.lookup_eq_none_iff]
          intro other among
          rw [same, bne_iff_ne]
          exact Std.ne_of_lt (above other among)
        rw [if_pos same, if_pos same, alone, same]
      · rw [if_neg same, if_neg same]

/-! ## Assignments -/

/-- A key is a name as a whole, or it leads first to a name of the characters of names. -/
theorem path_cases (key : String) :
    path key = [.name key] ∨ ∃ c name rest, path key = .name (String.ofList (c :: name)) :: rest ∧
      ∀ d ∈ c :: name, isNameChar d = true := by
  rw [path, readSteps.eq_def]
  simp only [↓reduceIte]
  split
  · exact .inl rfl
  · rename_i name nonempty
    cases readSteps (key.toList.dropWhile isNameChar) with
    | none => exact .inl rfl
    | some rest =>
        cases written : key.toList.takeWhile isNameChar with
        | nil => exact absurd written nonempty
        | cons c name =>
            refine .inr ⟨c, name, rest, rfl, fun d member => ?_⟩
            rw [← written] at member
            exact List.mem_takeWhile_imp member

theorem exists_path_eq (key : String) : ∃ first rest, path key = .name first :: rest := by
  rcases path_cases key with whole | ⟨c, name, rest, leads, _⟩
  · exact ⟨key, [], whole⟩
  · exact ⟨_, rest, leads⟩

/-- A name of the characters of names is a path of its own. -/
theorem path_eq_name {c : Char} {name : List Char} (plain : ∀ d ∈ c :: name, isNameChar d = true) :
    path (String.ofList (c :: name)) = [.name (String.ofList (c :: name))] := by
  have all : (c :: name).takeWhile isNameChar = c :: name := List.takeWhile_eq_self_iff.mpr plain
  have none : (c :: name).dropWhile isNameChar = [] := List.dropWhile_eq_nil_iff.mpr plain
  rw [path, readSteps.eq_def]
  simp only [String.toList_ofList, ↓reduceIte, all, none]
  rw [readSteps.eq_def]
  rfl

theorem isNameChar_foldChar {c : Char} (plain : isNameChar c = true) :
    isNameChar (foldChar c) = true := by
  by_cases kelvin : c = '\u212a'
  · subst kelvin
    decide
  · rw [foldChar_of_ne kelvin]
    by_cases upper : c.isUpper = true
    · have letter : c.toLower.isAlpha = true := by
        rw [Char.isAlpha_toLower_eq_isAlpha, Char.isAlpha, upper, Bool.true_or]
      simp only [isNameChar, Char.isAlphanum, letter, Bool.true_or]
    · rwa [Char.toLower_eq_of_not_isUpper upper]

/-- The first name on the way of a key in the case of names is a path of its own. -/
theorem path_foldName_first {key first : String} {rest : List Step} (folded : foldName key = key)
    (leads : path key = .name first :: rest) :
    path (foldName first) = [.name (foldName first)] := by
  rcases path_cases key with whole | ⟨c, name, others, along, plain⟩
  · rw [whole] at leads
    cases leads
    rw [folded, whole]
  · rw [along] at leads
    cases leads
    rw [foldName, String.toList_ofList, List.map_cons]
    apply path_eq_name
    rw [← List.map_cons]
    intro d member
    obtain ⟨e, among, rfl⟩ := List.mem_map.mp member
    exact isNameChar_foldChar (plain e among)

theorem get?_assign_name (value : Setting) (first : String) (rest : List Step)
    (setting : Setting) (name : String) :
    (assign value (.name first :: rest) (some setting)).get? name =
      if name = foldName first then some (assign value rest (setting.get? (foldName first)))
      else setting.get? name :=
  Table.lookup_putEntry ..

/-- What is under the name of the policy. -/
def policy (setting : Setting) : List (String × Setting) :=
  ((setting.get? "policy").map entries).getD []

def isTable : Setting → Bool
  | .table _ => true
  | _ => false

theorem isTable_iff {setting : Setting} :
    setting.isTable = true ↔ ∃ entries, setting = .table entries := by
  cases setting <;> simp [isTable]

/-- There is a table under the name of the policy, if there is anything. -/
def HasTable (setting : Setting) : Prop :=
  ∀ policy, setting.get? "policy" = some policy → ∃ entries, policy = .table entries

instance : DecidablePred HasTable := fun setting =>
  decidable_of_iff (∀ policy ∈ setting.get? "policy", policy.isTable = true)
    (forall₂_congr fun _ _ => isTable_iff)

def fields : List String :=
  ["policy_file", "policy_default_rule", "policy_dirs"]

/-- Whether an assignment along a path may change a field of the policy. -/
def changesField : List Step → Bool
  | .name first :: .name second :: _ =>
    foldName first == "policy" && fields.contains (foldName second)
  | .name first :: _ => foldName first == "policy"
  | _ => true

variable {setting : Setting} {key : String}

/-- An assignment to a name in the policy leaves the others in it as they were. -/
theorem get?_policy_enter (setting value : Setting) {first second : String} {rest : List Step}
    (leads : path key = .name first :: .name second :: rest) (policy : foldName first = "policy") :
    (setting.enter key value).get? "policy" =
      some (.table (Table.putEntry (foldName second)
        (assign value rest (setting.policy.lookup (foldName second))) setting.policy)) := by
  rw [enter, leads, get?_assign_name, if_pos policy.symm, policy]
  rfl

theorem hasTable_of_get? {entries : List (String × Setting)}
    (found : setting.get? "policy" = some (.table entries)) : setting.HasTable := by
  intro policy same
  exact ⟨entries, Option.some.inj (same.symm.trans found)⟩

theorem policy_of_get? {entries : List (String × Setting)}
    (found : setting.get? "policy" = some (.table entries)) : setting.policy = entries := by
  rw [policy, found]
  rfl

/-- An assignment that leads elsewhere leaves the fields as they were. -/
theorem enter_elsewhere (value : Setting) (elsewhere : changesField (path key) = false)
    (table : setting.HasTable) :
    (setting.enter key value).HasTable ∧
      ∀ field ∈ fields,
        (setting.enter key value).policy.lookup field = setting.policy.lookup field := by
  obtain ⟨first, rest, leads⟩ := exists_path_eq key
  by_cases policy : foldName first = "policy"
  · -- The path goes on to a name that is no field.
    rw [leads] at elsewhere
    match rest, leads, elsewhere with
    | [], _, elsewhere => simp [changesField, policy] at elsewhere
    | .position _ :: _, _, elsewhere => simp [changesField, policy] at elsewhere
    | .name second :: rest, leads, elsewhere =>
      have found := get?_policy_enter setting value leads policy
      refine ⟨hasTable_of_get? found, fun field member => ?_⟩
      rw [policy_of_get? found, Table.lookup_putEntry, if_neg]
      rintro rfl
      simp [changesField, policy, member] at elsewhere
  · have unchanged : (setting.enter key value).get? "policy" = setting.get? "policy" := by
      rw [enter, leads, get?_assign_name, if_neg (Ne.symm policy)]
    unfold HasTable Setting.policy
    rw [unchanged]
    exact ⟨table, fun _ _ => rfl⟩

/-- An assignment to a field changes that field only. -/
theorem lookup_policy_enter (setting value : Setting) {field : String}
    (leads : path key = [.name "policy", .name field]) (folded : foldName field = field)
    (name : String) :
    (setting.enter key value).policy.lookup name =
      if name = field then some (value.laidOver (setting.policy.lookup field))
      else setting.policy.lookup name := by
  have found := get?_policy_enter setting value leads (by decide)
  rw [policy_of_get? found, Table.lookup_putEntry, folded]
  rfl

/-- Assignments keep settings and what is under the name of the policy in order. -/
theorem ordered_enter (key : String) (value : Setting) (ordered : Ordered setting.entries)
    (inner : Ordered setting.policy) :
    Ordered (setting.enter key value).entries ∧ Ordered (setting.enter key value).policy := by
  obtain ⟨first, rest, leads⟩ := exists_path_eq key
  have whole : Ordered (((some setting).map entries).getD []) := ordered
  refine ⟨whole.assign value (path key), ?_⟩
  rw [policy, enter, leads, get?_assign_name]
  split
  · rename_i policy
    rw [← policy]
    exact inner.assign value rest
  · exact inner

theorem ordered_enterAll (ordered : Ordered setting.entries) (inner : Ordered setting.policy)
    (entries : List (String × Setting)) :
    Ordered (setting.enterAll entries).entries ∧ Ordered (setting.enterAll entries).policy := by
  induction entries generalizing setting with
  | nil => exact ⟨ordered, inner⟩
  | cons entry rest ih =>
      have entered := ordered_enter entry.1 entry.2 ordered inner
      exact ih entered.1 entered.2

/-- The settings that entries give by themselves. -/
def ofEntries (entries : List (String × Setting)) : Setting :=
  (Setting.table []).enterAll entries

theorem ordered_ofEntries (entries : List (String × Setting)) :
    Ordered (ofEntries entries).entries ∧ Ordered (ofEntries entries).policy := by
  have empty : Ordered (Setting.table []).entries := .nil
  exact ordered_enterAll empty .nil entries

/-! ## Layers -/

/-- Settings give the fields of the policy in one table, and not by another name. -/
structure GivesFields (given : Setting) : Prop where
  table : given.HasTable
  alone : ∀ entry ∈ given.entries, entry.1 ≠ "policy" → changesField (path entry.1) = false

instance : DecidablePred GivesFields := fun given =>
  decidable_of_iff
    (given.HasTable ∧
      ∀ entry ∈ given.entries, entry.1 ≠ "policy" → changesField (path entry.1) = false)
    ⟨fun both => ⟨both.1, both.2⟩, fun gives => ⟨gives.table, gives.alone⟩⟩

/-- With an assignment to a field, or one that leads elsewhere, settings give the fields as
before. -/
theorem GivesFields.enter (gives : GivesFields setting) (folded : foldName key = key)
    (value : Setting) (table : (setting.enter key value).HasTable) :
    GivesFields (setting.enter key value) where
  table := table
  alone entry member other := by
    obtain ⟨first, rest, leads⟩ := exists_path_eq key
    rw [Setting.enter, leads] at member
    rcases Table.mem_putEntry member with rfl | earlier
    · rw [path_foldName_first folded leads]
      simpa [changesField, foldName_foldName] using other
    · exact gives.alone entry earlier other

theorem path_policy : path "policy" = [.name "policy"] := by
  cbv

theorem foldName_policy : foldName "policy" = "policy" := by
  decide

/-- A table for the policy is laid over what there is. -/
theorem laidOver_policy (table : setting.HasTable) (entries : List (String × Setting)) :
    (Setting.table entries).laidOver (setting.get? "policy") =
      .table (entriesOver setting.policy entries) := by
  cases entries with
  | cons first rest => rfl
  | nil =>
      rw [policy]
      cases found : setting.get? "policy" with
      | none => rfl
      | some policy =>
          obtain ⟨entries, rfl⟩ := table policy found
          rfl

/-- A layer changes the fields that it gives. -/
theorem policy_enterAll {layer : List (String × Setting)} (fields : GivesFields (.table layer))
    (ordered : Ordered layer) (inner : Ordered (Setting.table layer).policy)
    (table : setting.HasTable) :
    (setting.enterAll layer).HasTable ∧ ∀ field ∈ Setting.fields,
      (setting.enterAll layer).policy.lookup field =
        match (Setting.table layer).policy.lookup field with
        | some value => some (value.laidOver (setting.policy.lookup field))
        | none => setting.policy.lookup field := by
  induction layer generalizing setting with
  | nil => exact ⟨table, fun _ _ => rfl⟩
  | cons entry rest ih =>
      obtain ⟨name, value⟩ := entry
      obtain ⟨above, ascending⟩ := List.pairwise_cons.mp ordered.ascending
      obtain ⟨plain, alone⟩ := List.forall_mem_cons.mp fields.alone
      have later : Ordered rest := ⟨ascending, (List.forall_mem_cons.mp ordered.folded).2⟩
      by_cases policy : name = "policy"
      · subst policy
        obtain ⟨entries, rfl⟩ := fields.table value rfl
        have found : (setting.enter "policy" (.table entries)).get? "policy" =
            some (.table (entriesOver setting.policy entries)) := by
          rw [enter, path_policy, get?_assign_name, foldName_policy, if_pos rfl, assign,
            laidOver_policy table]
        -- No later entry of the layer is named like that.
        have absent : (Setting.table rest).get? "policy" = none := by
          rw [get?, Setting.entries, List.lookup_eq_none_iff]
          intro other among
          rw [bne_iff_ne]
          exact Std.ne_of_lt (above other among)
        have empty : (Setting.table rest).policy = [] := by
          rw [Setting.policy, absent]
          rfl
        have restFields : GivesFields (.table rest) :=
          ⟨fun policy impossible => by rw [absent] at impossible; contradiction, alone⟩
        obtain ⟨table, entered⟩ :=
          ih restFields later (empty ▸ Ordered.nil) (hasTable_of_get? found)
        refine ⟨table, fun field member => (entered field member).trans ?_⟩
        rw [empty, policy_of_get? found]
        exact lookup_entriesOver inner setting.policy field
      · have same : (Setting.table ((name, value) :: rest)).get? "policy" =
            (Setting.table rest).get? "policy" := by
          rw [get?, Setting.entries, Table.lookup_entry, if_neg (Ne.symm policy)]
          rfl
        have samePolicy : (Setting.table ((name, value) :: rest)).policy =
            (Setting.table rest).policy := by
          rw [Setting.policy, same]
          rfl
        have restFields : GivesFields (.table rest) :=
          ⟨fun policy found => fields.table policy (same.trans found), alone⟩
        obtain ⟨table, unchanged⟩ := enter_elsewhere value (plain policy) table
        obtain ⟨table, entered⟩ := ih restFields later (samePolicy ▸ inner) table
        refine ⟨table, fun field member => ?_⟩
        rw [samePolicy, ← unchanged field member]
        exact entered field member

end AccessPolicy.Setting
