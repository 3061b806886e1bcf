import AccessPolicy.Proofs.Setting.Fields
import AccessPolicy.Proofs.Setting.Scalars

/-! # Settings overridden by variables

A variable for a field of the policy overrides what the configuration file gives. Its value
is taken as it is if it spells no scalar. The scalar that it spells otherwise stands for its
own text, which may be another one, and is no list of directories.
-/

namespace AccessPolicy

open Setting

namespace Environment

theorem mem_dotPairs {c : Char} {text : List Char} (member : c ∈ dotPairs text) :
    c = '.' ∨ c ∈ text := by
  fun_induction dotPairs text with
  | case1 => exact .inr member
  | case2 rest ih =>
      rcases List.mem_cons.mp member with dot | later
      · exact .inl dot
      · rcases ih later with dot | later
        · exact .inl dot
        · exact .inr (List.mem_cons_of_mem _ (List.mem_cons_of_mem _ later))
  | case3 first rest _ ih =>
      rcases List.mem_cons.mp member with same | later
      · exact .inr (same ▸ List.mem_cons_self ..)
      · exact (ih later).imp_right (List.mem_cons_of_mem _)

/-- The key of a variable is in the case in which names are compared. -/
theorem foldName_of_key? {name key : String} (reads : key? name = some key) :
    foldName key = key := by
  obtain ⟨rest, found, rfl⟩ := Option.map_eq_some_iff.mp reads
  have whole := List.isPrefixOf?_eq_some_iff_append_eq.mp found
  rw [foldName, String.toList_ofList]
  congr 1
  refine (List.map_congr_left fun c member => ?_).trans (List.map_id _)
  rcases mem_dotPairs member with rfl | later
  · decide
  · have among : c ∈ name.toList.map foldChar := by
      rw [← whole]
      exact List.mem_append_right _ later
    obtain ⟨d, _, rfl⟩ := List.mem_map.mp among
    exact foldChar_foldChar d

/-- The value of the last variable that is the setting with a key. -/
def value? (environment : List (String × String)) (key : String) : Option String :=
  (environment.filterMap fun variableEntry =>
    if key? variableEntry.1 = some key then some variableEntry.2 else none).getLast?

def fieldKey (field : String) : String :=
  "policy." ++ field

/-- A variable that is a setting is a field of the policy, or leads elsewhere. -/
def SetsFields (environment : List (String × String)) : Prop :=
  ∀ variableEntry ∈ environment, ∀ key, key? variableEntry.1 = some key →
    key ∈ fields.map fieldKey ∨ changesField (path key) = false

instance : DecidablePred SetsFields := fun environment =>
  inferInstanceAs (Decidable (∀ variableEntry ∈ environment, ∀ key ∈ key? variableEntry.1,
    key ∈ fields.map fieldKey ∨ changesField (path key) = false))

theorem path_fieldKey {field : String} (member : field ∈ fields) :
    path (fieldKey field) = [.name "policy", .name field] := by
  simp only [fields, List.mem_cons, List.not_mem_nil, or_false] at member
  rcases member with rfl | rfl | rfl <;> cbv

theorem foldName_field {field : String} (member : field ∈ fields) : foldName field = field := by
  simp only [fields, List.mem_cons, List.not_mem_nil, or_false] at member
  rcases member with rfl | rfl | rfl <;> decide

theorem value?_cons (variableEntry : String × String) (rest : List (String × String))
    (key : String) :
    value? (variableEntry :: rest) key =
      (value? rest key).or
        (if key? variableEntry.1 = some key then some variableEntry.2 else none) := by
  have latest := getLast?_filterMap_cons_or (fun variableEntry : String × String =>
    if key? variableEntry.1 = some key then some variableEntry.2 else none) variableEntry rest none
  rwa [Option.or_none, Option.or_none] at latest

theorem changesField_fieldKey {field : String} (member : field ∈ fields) :
    changesField (path (fieldKey field)) = true := by
  rw [path_fieldKey member, changesField, foldName_policy, foldName_field member]
  simpa using member

theorem fieldKey_injective {first second : String} (same : fieldKey first = fieldKey second) :
    first = second := by
  simpa [fieldKey] using same

/-- One variable overrides the field that it is for, if it is for one. -/
theorem policy_enter_settingOf {name key : String} (reads : key? name = some key)
    (sets : key ∈ fields.map fieldKey ∨ changesField (path key) = false) {setting : Setting}
    (gives : GivesFields setting) (value : String) :
    GivesFields (setting.enter key (settingOf key value)) ∧ ∀ field ∈ fields,
      (setting.enter key (settingOf key value)).policy.lookup field =
        if key = fieldKey field then some (settingOf key value)
        else setting.policy.lookup field := by
  rcases sets with forField | elsewhere
  · obtain ⟨field, member, rfl⟩ := List.mem_map.mp forField
    have leads := path_fieldKey member
    have table := hasTable_of_get?
      (get?_policy_enter setting (settingOf (fieldKey field) value) leads foldName_policy)
    refine ⟨gives.enter (foldName_of_key? reads) _ table, fun other _ => ?_⟩
    rw [lookup_policy_enter setting _ leads (foldName_field member) other, laidOver_settingOf]
    by_cases same : other = field
    · rw [if_pos same, if_pos (congrArg fieldKey same.symm)]
    · rw [if_neg same, if_neg fun equal => same (fieldKey_injective equal).symm]
  · obtain ⟨table, unchanged⟩ := enter_elsewhere (settingOf key value) elsewhere gives.table
    refine ⟨gives.enter (foldName_of_key? reads) _ table, fun field member => ?_⟩
    rw [unchanged field member, if_neg]
    rintro rfl
    rw [changesField_fieldKey member] at elsewhere
    contradiction

/-- The variables override what was given for the fields. -/
theorem policy_enterAll_entries {environment : List (String × String)}
    (sets : SetsFields environment) {setting : Setting} (gives : GivesFields setting) :
    GivesFields (setting.enterAll (entries environment)) ∧ ∀ field ∈ fields,
      (setting.enterAll (entries environment)).policy.lookup field =
        ((value? environment (fieldKey field)).map (settingOf (fieldKey field))).or
          (setting.policy.lookup field) := by
  induction environment generalizing setting with
  | nil => exact ⟨gives, fun _ _ => rfl⟩
  | cons variableEntry rest ih =>
      obtain ⟨first, others⟩ := List.forall_mem_cons.mp sets
      cases reads : key? variableEntry.1 with
      | none =>
          have same : entries (variableEntry :: rest) = entries rest := by
            rw [entries, List.filterMap_cons, entry?, reads]
            rfl
          obtain ⟨gives, later⟩ := ih others gives
          rw [same]
          refine ⟨gives, fun field member => ?_⟩
          rw [later field member, value?_cons, reads, if_neg (by simp), Option.or_none]
      | some key =>
          have entered : setting.enterAll (entries (variableEntry :: rest)) =
              (setting.enter key (settingOf key variableEntry.2)).enterAll (entries rest) := by
            rw [entries, List.filterMap_cons, entry?, reads]
            rfl
          obtain ⟨gives, step⟩ :=
            policy_enter_settingOf reads (first key reads) gives variableEntry.2
          obtain ⟨gives, later⟩ := ih others gives
          rw [entered]
          refine ⟨gives, fun field member => ?_⟩
          rw [later field member, step field member, value?_cons, reads]
          by_cases same : key = fieldKey field
          · subst same
            cases value? rest (fieldKey field) <;> simp
          · simp [same]

/-- The value of the last variable that is the same setting as one of some name. -/
def valueOf? (environment : List (String × String)) (name : String) : Option String :=
  (key? name).bind (value? environment)

theorem valueOf?_eq {name key : String} (reads : key? name = some key)
    (environment : List (String × String)) :
    valueOf? environment name = value? environment key := by
  rw [valueOf?, reads, Option.bind_some]

theorem key?_file : key? "RULEGATE__POLICY__POLICY_FILE" = some (fieldKey "policy_file") := by
  cbv

theorem key?_defaultRule :
    key? "RULEGATE__POLICY__POLICY_DEFAULT_RULE" = some (fieldKey "policy_default_rule") := by
  cbv

theorem key?_directories : key? "RULEGATE__POLICY__POLICY_DIRS" = some directoriesKey := by
  cbv

/-- A text is the given one if there is no variable for it. Otherwise it is what the value of
the variable stands for, which is the value itself if that can be taken verbatim. -/
def Overrides (override : Option String) (given result : String) : Prop :=
  (override = none → result = given) ∧
    ∀ value, override = some value → result = textOf value ∧ (result = value ↔ Verbatim value)

theorem overrides_getD (override : Option String) (given : String) :
    Overrides override given ((override.map textOf).getD given) := by
  constructor
  · rintro rfl
    rfl
  · rintro value rfl
    exact ⟨rfl, textOf_eq_iff value⟩

end Environment

namespace Sources

/-- The sources that settings give if they have a table with all fields. -/
theorem ofSetting?_eq {setting : Setting} (table : setting.HasTable)
    {forFile forRule forDirectories : Setting}
    (hasFile : setting.policy.lookup "policy_file" = some forFile)
    (hasRule : setting.policy.lookup "policy_default_rule" = some forRule)
    (hasDirectories : setting.policy.lookup "policy_dirs" = some forDirectories) :
    ofSetting? setting =
      forFile.text?.bind fun file =>
        forRule.text?.bind fun defaultRule =>
          forDirectories.texts?.map fun directories => ⟨file, defaultRule, directories⟩ := by
  cases found : setting.get? "policy" with
  | none =>
      rw [policy, found] at hasFile
      contradiction
  | some policy =>
      obtain ⟨entries, rfl⟩ := table policy found
      rw [policy_of_get? found] at hasFile hasRule hasDirectories
      simp only [ofSetting?, found, ofFields?, hasFile, hasRule, hasDirectories, Option.map_some,
        Option.getD_some]
      cases forFile.text? <;> cases forRule.text? <;> cases forDirectories.texts? <;> rfl

end Sources

namespace Settings

open Environment

variable {files : Files} {environment : List (String × String)} {path : String}
  {entries : List (String × Setting)} {base : Sources}

/-- A field that entries give over its standard value. -/
def fieldOver (given : List (String × Setting)) (field : String) (standard : Setting) : Setting :=
  match given.lookup field with
  | some value => value.laidOver (some standard)
  | none => standard

/-- What a variable writes for a field, or what there is without one. -/
def overridden (environment : List (String × String)) (field : String) (given : Setting) :
    Setting :=
  ((value? environment (fieldKey field)).map (settingOf (fieldKey field))).getD given

/-- What the fields of the policy come to. -/
theorem lookup_policy_load (gives : GivesFields (ofEntries entries))
    (sets : SetsFields environment) :
    let all := (ofEntries entries).enterAll (Environment.entries environment)
    (Sources.standardSetting.enterAll all.entries).HasTable ∧
      ∀ field ∈ fields, ∀ standard,
        Sources.standardSetting.policy.lookup field = some standard →
        (Sources.standardSetting.enterAll all.entries).policy.lookup field =
          some (overridden environment field
            (fieldOver (ofEntries entries).policy field standard)) := by
  intro all
  have ordered := ordered_ofEntries entries
  have orderedAll := ordered_enterAll ordered.1 ordered.2 (Environment.entries environment)
  obtain ⟨givesAll, overrides⟩ := policy_enterAll_entries sets gives
  have standardTable : Sources.standardSetting.HasTable := hasTable_of_get? rfl
  have layer : GivesFields (.table all.entries) := ⟨givesAll.table, givesAll.alone⟩
  obtain ⟨table, merged⟩ := policy_enterAll layer orderedAll.1 orderedAll.2 standardTable
  refine ⟨table, fun field member standard hasStandard => ?_⟩
  have given : (Setting.table all.entries).policy.lookup field = _ := overrides field member
  rw [merged field member, given, hasStandard, overridden, fieldOver]
  cases value? environment (fieldKey field) with
  | none => cases (ofEntries entries).policy.lookup field <;> rfl
  | some value => exact congrArg some (laidOver_settingOf ..)

theorem load?_eq (file : fileEntries? files path = some entries)
    (gives : GivesFields (ofEntries entries)) (sets : SetsFields environment) :
    load? files environment path =
      let given := (ofEntries entries).policy
      let file := fieldOver given "policy_file" (.text Sources.standard.file)
      let rule := fieldOver given "policy_default_rule" (.text Sources.standard.defaultRule)
      let directories :=
        fieldOver given "policy_dirs" (.list (Sources.standard.directories.map .text))
      (overridden environment "policy_file" file).text?.bind fun file =>
        (overridden environment "policy_default_rule" rule).text?.bind fun defaultRule =>
          (overridden environment "policy_dirs" directories).texts?.map fun directories =>
            ⟨file, defaultRule, directories⟩ := by
  obtain ⟨table, found⟩ := lookup_policy_load gives sets
  simp only [load?, file, Option.bind_eq_bind, Option.bind_some]
  exact Sources.ofSetting?_eq table (found _ (by decide) _ rfl) (found _ (by decide) _ rfl)
    (found _ (by decide) _ rfl)

theorem text?_overridden {field : String} (other : fieldKey field ≠ directoriesKey)
    {given : Setting} {text : String} (isText : given.text? = some text) :
    (overridden environment field given).text? =
      some (((value? environment (fieldKey field)).map textOf).getD text) := by
  unfold overridden
  cases value? environment (fieldKey field) with
  | none => exact isText
  | some value => exact text?_settingOf other value

/-- The texts that the value of a variable lists, or the given ones without one. -/
def listed? (override : Option String) (given : List String) : Option (List String) :=
  match override with
  | some value =>
    if (scalar? value).isSome then none
    else some ((Text.splitOn ',' value.toList).map String.ofList)
  | none => some given

theorem texts?_overridden {given : Setting} {texts : List String}
    (areTexts : given.texts? = some texts) :
    (overridden environment "policy_dirs" given).texts? =
      listed? (value? environment directoriesKey) texts := by
  have key : fieldKey "policy_dirs" = directoriesKey := by decide
  rw [overridden, key]
  cases value? environment directoriesKey with
  | none => exact areTexts
  | some value => exact texts?_settingOf value

/-- The text of a field is that of its entry, or the standard one. -/
theorem text_of_fieldOver {given : List (String × Setting)} {field standard text : String}
    (isText : (fieldOver given field (.text standard)).text? = some text) :
    text = ((given.lookup field).bind Setting.text?).getD standard := by
  unfold fieldOver at isText
  cases found : given.lookup field with
  | none =>
      rw [found] at isText
      exact (Option.some.inj isText).symm
  | some value =>
      rw [found] at isText
      cases value with
      | table entries =>
          cases entries with
          | nil => exact (Option.some.inj isText).symm
          | cons first rest => cases isText
      | unset => cases isText
      | list items => cases isText
      | _ => exact (Option.some.inj isText).symm

/-- The texts of a field are those of its entry, or the standard ones. -/
theorem texts_of_fieldOver {given : List (String × Setting)} {field : String}
    {standard texts : List String}
    (areTexts : (fieldOver given field (.list (standard.map .text))).texts? = some texts) :
    texts = ((given.lookup field).bind Setting.texts?).getD standard := by
  unfold fieldOver at areTexts
  cases found : given.lookup field with
  | none =>
      rw [found] at areTexts
      exact Option.some.inj (areTexts.symm.trans (texts?_list standard))
  | some value =>
      rw [found] at areTexts
      cases value with
      | list items =>
          have same : (Setting.list items).texts? = some texts := areTexts
          simp only [Option.bind_some, same, Option.getD_some]
      | table entries =>
          cases entries with
          | nil => exact Option.some.inj (areTexts.symm.trans (texts?_list standard))
          | cons first rest => cases areTexts
      | _ => cases areTexts

/-- What the file gives by itself. -/
theorem fields_of_load? (file : fileEntries? files path = some entries)
    (gives : GivesFields (ofEntries entries)) (loads : load? files [] path = some base) :
    let given := (ofEntries entries).policy
    (fieldOver given "policy_file" (.text Sources.standard.file)).text? = some base.file ∧
    (fieldOver given "policy_default_rule" (.text Sources.standard.defaultRule)).text? =
      some base.defaultRule ∧
    (fieldOver given "policy_dirs" (.list (Sources.standard.directories.map .text))).texts? =
      some base.directories := by
  have none : SetsFields [] := by
    intro variableEntry member
    contradiction
  rw [load?_eq file gives none] at loads
  obtain ⟨baseFile, isFile, loads⟩ := Option.bind_eq_some_iff.mp loads
  obtain ⟨baseRule, isRule, loads⟩ := Option.bind_eq_some_iff.mp loads
  obtain ⟨baseDirectories, areDirectories, rfl⟩ := Option.map_eq_some_iff.mp loads
  exact ⟨isFile, isRule, areDirectories⟩

/-- Loading with variables, by what the file gives by itself. -/
theorem load?_of_base (file : fileEntries? files path = some entries)
    (gives : GivesFields (ofEntries entries)) (loads : load? files [] path = some base)
    (sets : SetsFields environment) :
    load? files environment path =
      (listed? (value? environment directoriesKey) base.directories).map fun directories =>
        ⟨((value? environment (fieldKey "policy_file")).map textOf).getD base.file,
          ((value? environment (fieldKey "policy_default_rule")).map textOf).getD base.defaultRule,
          directories⟩ := by
  obtain ⟨isFile, isRule, areDirectories⟩ := fields_of_load? file gives loads
  rw [load?_eq file gives sets]
  simp only [text?_overridden (show fieldKey "policy_file" ≠ directoriesKey by decide) isFile,
    text?_overridden (show fieldKey "policy_default_rule" ≠ directoriesKey by decide) isRule,
    texts?_overridden areDirectories, Option.bind_some]

theorem listed?_isSome_iff (override : Option String) (given : List String) :
    (listed? override given).isSome ↔ ∀ value, override = some value → scalar? value = none := by
  cases override with
  | none => simp [listed?]
  | some value => cases spells : scalar? value <;> simp [listed?, spells]

/-- A list of names between commas lists the names. -/
theorem eq_of_listed? {names given texts : List String} (nonempty : names ≠ [])
    (free : ∀ name ∈ names, ',' ∉ name.toList)
    (lists : listed? (some (",".intercalate names)) given = some texts) : texts = names := by
  have parts : Text.splitOn ',' (",".intercalate names).toList = names.map String.toList := by
    rw [String.toList_intercalate]
    apply Text.splitOn_intercalate (by simpa using nonempty)
    intro part member
    obtain ⟨name, among, rfl⟩ := List.mem_map.mp member
    exact free name among
  rw [listed?, parts, List.map_map] at lists
  split at lists
  · contradiction
  · refine (Option.some.inj lists).symm.trans ?_
    simp [Function.comp_def]

/-- **Variables override a configuration file field by field.** -/
theorem load_overridden (file : fileEntries? files path = some entries)
    (gives : GivesFields (ofEntries entries)) (loads : load? files [] path = some base)
    (sets : SetsFields environment) :
    let given := (ofEntries entries).policy
    base = ⟨((given.lookup "policy_file").bind text?).getD Sources.standard.file,
      ((given.lookup "policy_default_rule").bind text?).getD Sources.standard.defaultRule,
      ((given.lookup "policy_dirs").bind texts?).getD Sources.standard.directories⟩ ∧
    ((load? files environment path).isSome ↔
      ∀ value, valueOf? environment "RULEGATE__POLICY__POLICY_DIRS" = some value →
        scalar? value = none) ∧
    ∀ sources, load? files environment path = some sources →
      Overrides (valueOf? environment "RULEGATE__POLICY__POLICY_FILE") base.file sources.file ∧
      Overrides (valueOf? environment "RULEGATE__POLICY__POLICY_DEFAULT_RULE") base.defaultRule
        sources.defaultRule ∧
      (valueOf? environment "RULEGATE__POLICY__POLICY_DIRS" = none →
        sources.directories = base.directories) ∧
      ∀ names, names ≠ [] → (∀ name ∈ names, ',' ∉ name.toList) →
        valueOf? environment "RULEGATE__POLICY__POLICY_DIRS" = some (",".intercalate names) →
        sources.directories = names := by
  intro given
  obtain ⟨isFile, isRule, areDirectories⟩ := fields_of_load? file gives loads
  rw [load?_of_base file gives loads sets, valueOf?_eq key?_file, valueOf?_eq key?_defaultRule,
    valueOf?_eq key?_directories, Option.isSome_map]
  refine ⟨?_, listed?_isSome_iff .., ?_⟩
  · rw [← text_of_fieldOver isFile, ← text_of_fieldOver isRule, ← texts_of_fieldOver areDirectories]
  · intro sources loaded
    obtain ⟨directories, lists, rfl⟩ := Option.map_eq_some_iff.mp loaded
    refine ⟨overrides_getD .., overrides_getD .., ?_, ?_⟩
    · intro unset
      rw [unset] at lists
      exact (Option.some.inj lists).symm
    · intro names nonempty free joined
      rw [joined] at lists
      exact eq_of_listed? nonempty free lists

/-! ## A site with variables -/

/-- A configuration file that gives two of the fields, and nothing else. -/
def siteFiles : Files := fun path =>
  if path = "config.toml" then
    .ok (.file (Text.utf8
      "[policy]\npolicy_file = \"site.json\"\npolicy_default_rule = \"deny_all\"\n"))
  else .error .notFound

def siteVariables : List (String × String) :=
  [("HOME", "/root"), ("RULEGATE__POLICY__POLICY_FILE", "/etc/app/policy.json"),
    ("RULEGATE__POLICY__POLICY_DIRS", "a.d,2024")]

/-- One of the fields is from the file, and the others are from variables. -/
theorem load_overridden_siteFiles :
    ∃ entries, fileEntries? siteFiles "config.toml" = some entries ∧
    GivesFields (ofEntries entries) ∧
    load? siteFiles [] "config.toml" = some ⟨"site.json", "deny_all", ["policy.d"]⟩ ∧
    SetsFields siteVariables ∧
    ∃ sources, load? siteFiles siteVariables "config.toml" = some sources ∧
      sources.file = "/etc/app/policy.json" ∧ sources.defaultRule = "deny_all" ∧
      sources.directories = ["a.d", "2024"] := by
  have reads : (fileEntries? siteFiles "config.toml").isSome := by decide +kernel
  obtain ⟨entries, file⟩ := Option.isSome_iff_exists.mp reads
  have gives : ∀ entries ∈ fileEntries? siteFiles "config.toml",
      GivesFields (ofEntries entries) := by decide +kernel
  have base : load? siteFiles [] "config.toml" = some ⟨"site.json", "deny_all", ["policy.d"]⟩ := by
    decide +kernel
  have sets : SetsFields siteVariables := by decide +kernel
  obtain ⟨_, loads, overrides⟩ := load_overridden file (gives entries file) base sets
  have fileSet : valueOf? siteVariables "RULEGATE__POLICY__POLICY_FILE" =
      some "/etc/app/policy.json" := by decide +kernel
  have ruleUnset : valueOf? siteVariables "RULEGATE__POLICY__POLICY_DEFAULT_RULE" = none := by
    decide +kernel
  have directoriesSet : valueOf? siteVariables "RULEGATE__POLICY__POLICY_DIRS" =
      some "a.d,2024" := by decide +kernel
  have verbatim : Verbatim "/etc/app/policy.json" :=
    verbatim_of_mem (c := '/') (by decide) (by decide)
  have aList : scalar? "a.d,2024" = none := scalar?_eq_none (c := ',') (by decide) (by decide)
  have succeeds : (load? siteFiles siteVariables "config.toml").isSome := by
    refine loads.mpr fun value set => ?_
    cases directoriesSet.symm.trans set
    exact aList
  obtain ⟨sources, loaded⟩ := Option.isSome_iff_exists.mp succeeds
  obtain ⟨ofFile, ofRule, _, ofDirectories⟩ := overrides sources loaded
  exact ⟨entries, file, gives entries file, base, sets, sources, loaded,
    (ofFile.2 _ fileSet).2.mpr verbatim, ofRule.1 ruleUnset,
    ofDirectories ["a.d", "2024"] (by decide) (by decide) directoriesSet⟩

/-! ## Values that spell numbers -/

def noFiles : Files := fun _ => .error .notFound

/-- A variable that is a list of one directory is not taken for a list if its name is a number,
and the name of a rule that is a number is written anew. -/
theorem load_misread :
    load? noFiles [] "config.toml" = some .standard ∧
    load? noFiles [("RULEGATE__POLICY__POLICY_DIRS", "2024")] "config.toml" = none ∧
    load? noFiles [("RULEGATE__POLICY__POLICY_DEFAULT_RULE", "007")] "config.toml" =
      some { Sources.standard with defaultRule := "7" } := by
  decide +kernel

end Settings

end AccessPolicy
