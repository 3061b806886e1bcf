import AccessPolicy.Proofs.Evaluation.Reach
import AccessPolicy.Proofs.Operand.Attribute
import AccessPolicy.Store
import Mathlib.Data.List.Basic

/-! # What a decision depends on

A check names what it looks at: roles, attributes in the operands of comparisons, and
rules. Two evaluations of it that find the same there run alike to their ends, through
the same references, refusals and reports. What the check does not name, in its own tree
or in the rules it reaches, has no part in its decision: other rules, the default rule,
other attributes, the target where the credentials are asked, and the other way around.
-/

namespace AccessPolicy

namespace Json

/-- There is nothing under a key, or null. -/
def Lacks (key : String) (value : Json) : Prop :=
  value.get? key = none ∨ value.get? key = some .null

/-- Two values have the same under a key, or both lack it. -/
def AgreeAt (key : String) (first second : Json) : Prop :=
  first.get? key = second.get? key ∨ first.Lacks key ∧ second.Lacks key

end Json

namespace Operand

theorem value?_attribute_of_lacks {field : String} {attributes : Json}
    (lacks : attributes.Lacks field) : value? attributes (.attribute field) = none := by
  rcases lacks with absent | null
  · rw [value?, absent]
  · rw [value?, null]

/-- An operand resolves alike among attributes that agree on the one it names. -/
theorem resolve?_congr {text : String} {first second : Json}
    (agree : ∀ field, field ≠ "" → text = template field → first.AgreeAt field second) :
    resolve? text first = resolve? text second := by
  unfold resolve?
  rcases written : ofText? text with - | value | field
  · rfl
  · rfl
  · obtain ⟨nonempty, spelled⟩ := ofText?_eq_attribute written
    change value? first (.attribute field) = value? second (.attribute field)
    rcases agree field nonempty spelled with same | ⟨absent, missing⟩
    · simp only [value?, same]
    · rw [value?_attribute_of_lacks absent, value?_attribute_of_lacks missing]

end Operand

namespace Request

variable {first second : Request}

theorem hasRole_of_lacks {request : Request} (lacks : request.credentials.Lacks "roles")
    (role : String) : request.hasRole role = false := by
  rcases lacks with absent | null
  · rw [hasRole, absent]
  · rw [hasRole, null]

theorem hasRole_congr (agree : first.credentials.AgreeAt "roles" second.credentials)
    (role : String) : first.hasRole role = second.hasRole role := by
  rcases agree with same | ⟨absent, missing⟩
  · rw [hasRole, hasRole, same]
  · rw [hasRole_of_lacks absent, hasRole_of_lacks missing]

/-- A comparison looks up its left operand among the credentials only, and its right one
in the target only. -/
theorem agree_congr {kind matcher : String}
    (kinds : ∀ field, field ≠ "" → kind = Operand.template field →
      first.credentials.AgreeAt field second.credentials)
    (matchers : ∀ field, field ≠ "" → matcher = Operand.template field →
      first.target.AgreeAt field second.target) :
    first.agree kind matcher = second.agree kind matcher := by
  unfold agree Operand.agree
  rw [Operand.resolve?_congr kinds, Operand.resolve?_congr matchers]

end Request

namespace Evaluation

variable {check : Check} {first second : Table Check} {left right : Request}
  {enterLeft enterRight : String → Check → Run} {branches : List Check}

theorem evaluateAll_congr
    (branchwise : ∀ branch ∈ branches,
      evaluate first left enterLeft branch = evaluate second right enterRight branch) :
    evaluateAll first left enterLeft branches = evaluateAll second right enterRight branches := by
  funext progress
  induction branches generalizing progress with
  | nil => rfl
  | cons branch rest ih =>
      obtain ⟨here, later⟩ := List.forall_mem_cons.mp branchwise
      simp only [evaluateAll, here, ih later]

theorem evaluateAny_congr
    (branchwise : ∀ branch ∈ branches,
      evaluate first left enterLeft branch = evaluate second right enterRight branch) :
    evaluateAny first left enterLeft branches = evaluateAny second right enterRight branches := by
  funext progress
  induction branches generalizing progress with
  | nil => rfl
  | cons branch rest ih =>
      obtain ⟨here, later⟩ := List.forall_mem_cons.mp branchwise
      simp only [evaluateAny, here, ih later]

/-- Evaluations that agree on the leaves of a check agree on the check. -/
theorem evaluate_congr
    (names : ∀ name, check.Mentions name →
      evaluate first left enterLeft (.rule name) = evaluate second right enterRight (.rule name))
    (roles : ∀ role, (Check.role role).OccursIn check → left.hasRole role = right.hasRole role)
    (comparisons : ∀ kind matcher, (Check.compare kind matcher).OccursIn check →
      left.agree kind matcher = right.agree kind matcher) :
    evaluate first left enterLeft check = evaluate second right enterRight check := by
  induction check using Check.branchInduction with
  | deny => rfl
  | allow => rfl
  | not inner ih =>
      funext progress
      have inside := ih (fun name mentioned => names name (.not mentioned))
        (fun role occurs => roles role (.not occurs))
        (fun kind matcher occurs => comparisons kind matcher (.not occurs))
      simp only [evaluate, inside]
  | and branches ih =>
      have branchwise : ∀ branch ∈ branches,
          evaluate first left enterLeft branch = evaluate second right enterRight branch := by
        intro branch member
        apply ih branch member
        · exact fun name mentioned => names name (.and member mentioned)
        · exact fun role occurs => roles role (.and member occurs)
        · exact fun kind matcher occurs => comparisons kind matcher (.and member occurs)
      funext progress
      simp only [evaluate, evaluateAll_congr branchwise]
  | or branches ih =>
      have branchwise : ∀ branch ∈ branches,
          evaluate first left enterLeft branch = evaluate second right enterRight branch := by
        intro branch member
        apply ih branch member
        · exact fun name mentioned => names name (.or member mentioned)
        · exact fun role occurs => roles role (.or member occurs)
        · exact fun kind matcher occurs => comparisons kind matcher (.or member occurs)
      funext progress
      simp only [evaluate, evaluateAny_congr branchwise]
  | rule name => exact names name .rule
  | role role =>
      funext progress
      simp only [evaluate, roles role .whole]
  | compare kind matcher =>
      funext progress
      simp only [evaluate, comparisons kind matcher .whole]

/-- Two stores and two requests have in common what a check uses. -/
structure SameUses (check : Check) (first second : Table Check) (left right : Request) : Prop where
  rules : ∀ name, Reaches first check name → first.get? name = second.get? name
  roles : ∀ role, Uses first check (.role role) → left.hasRole role = right.hasRole role
  comparisons : ∀ kind matcher, Uses first check (.compare kind matcher) →
    left.agree kind matcher = right.agree kind matcher

namespace SameUses

variable (same : SameUses check first second left right)

include same

/-- The rules that a check reaches are entered alike. -/
theorem enter_eq {name : String} {body : Check} (reached : Reaches first check name)
    (found : first.get? name = some body) (room : Nat) (chain : List String) :
    enter first left room chain name body = enter second right room chain name body := by
  induction room generalizing chain name body with
  | zero =>
      funext progress
      rw [enter.eq_def, enter.eq_def second]
  | succ room ih =>
      have inside : evaluate first left (enter first left room (chain ++ [name])) body =
          evaluate second right (enter second right room (chain ++ [name])) body := by
        refine evaluate_congr (fun other mentioned => ?_)
          (fun role occurs => same.roles role (.body reached found occurs))
          (fun kind matcher occurs => same.comparisons kind matcher (.body reached found occurs))
        have further := reached.through found mentioned
        funext progress
        simp only [evaluate, ← same.rules other further]
        cases next : first.get? other with
        | none => rfl
        | some target => exact congrFun (ih further next _) progress
      funext progress
      rw [enter.eq_def, enter.eq_def second]
      simp only [inside]

theorem evaluate_eq (room : Nat) :
    evaluate first left (enter first left room []) check =
      evaluate second right (enter second right room []) check := by
  refine evaluate_congr (fun name mentioned => ?_)
    (fun role occurs => same.roles role (.tree occurs))
    (fun kind matcher occurs => same.comparisons kind matcher (.tree occurs))
  funext progress
  simp only [evaluate, ← same.rules name (.mention mentioned)]
  cases found : first.get? name with
  | none => rfl
  | some body => exact congrFun (same.enter_eq (.mention mentioned) found room []) progress

end SameUses

/-- **A decision depends only on what its rules name.** Let two stores have the same rules
under all names that a check reaches, and let two requests agree on the roles if a used
leaf asks for one, on every attribute of the credentials that the left operand of a used
comparison names, and on every attribute of the target that a right one names. Then the
check decides alike, and the same is reported. -/
theorem decide_eq_of_agree (check : Check) (first second : Store) (left right : Request)
    (rules : ∀ name, Reaches first.rules check name → first.get? name = second.get? name)
    (roles : ∀ role, Uses first.rules check (.role role) →
      left.credentials.AgreeAt "roles" right.credentials)
    (kinds : ∀ field matcher, field ≠ "" →
      Uses first.rules check (.compare (Operand.template field) matcher) →
        left.credentials.AgreeAt field right.credentials)
    (matchers : ∀ kind field, field ≠ "" →
      Uses first.rules check (.compare kind (Operand.template field)) →
        left.target.AgreeAt field right.target) :
    check.decide first.rules left = check.decide second.rules right := by
  have same : SameUses check first.rules second.rules left right := by
    refine ⟨rules, fun role used => ?_, fun kind matcher used => ?_⟩
    · exact Request.hasRole_congr (roles role used) role
    · apply Request.agree_congr
      · rintro field nonempty rfl
        exact kinds field matcher nonempty used
      · rintro field nonempty rfl
        exact matchers kind field nonempty used
  simp only [Check.decide, enterFirst, same.evaluate_eq greatestDepth]

/-! ## A member who owns the target -/

/-- A role that is asked for by a rule that also refers to itself. -/
def memberRule : String × Check :=
  ("member", .or [.rule "member", .role "member"])

def ownedByMember : Check :=
  .and [.rule "member", .compare (Operand.template "id") (Operand.template "owner")]

/-- Stores that differ in a rule that the check does not reach, and in the default rule. -/
def storeWithDefault : Store :=
  ⟨⟨[memberRule, ("other", .allow)], by decide⟩, "other"⟩

def storeWithoutDefault : Store :=
  ⟨⟨[memberRule], by decide⟩, ""⟩

/-- A request with an attribute of its target and one of its credentials that the check
does not look at there. -/
def ownRequest (targetId owner : Json) : Request :=
  ⟨.object [("id", targetId), ("owner", .string "u1")],
    .object [("id", .string "u1"), ("owner", owner), ("roles", .array [.string "member"])]⟩

theorem reaches_ownedByMember {name : String}
    (reached : Reaches storeWithDefault.rules ownedByMember name) : name = "member" := by
  induction reached with
  | mention mentioned =>
      cases mentioned with
      | and among mentioned =>
          simp only [List.mem_cons, List.not_mem_nil, or_false] at among
          rcases among with rfl | rfl <;> cases mentioned
          rfl
  | follow _ refers same =>
      obtain ⟨body, found, mentioned⟩ := refers
      subst same
      cases found
      cases mentioned with
      | or among mentioned =>
          simp only [List.mem_cons, List.not_mem_nil, or_false] at among
          rcases among with rfl | rfl <;> cases mentioned
          rfl

theorem uses_ownedByMember {kind matcher : String}
    (used : Uses storeWithDefault.rules ownedByMember (.compare kind matcher)) :
    kind = Operand.template "id" ∧ matcher = Operand.template "owner" := by
  rcases used with occurs | ⟨reached, found, occurs⟩
  · cases occurs with
    | and among occurs =>
        simp only [List.mem_cons, List.not_mem_nil, or_false] at among
        rcases among with rfl | rfl <;> cases occurs
        exact ⟨rfl, rfl⟩
  · cases reaches_ownedByMember reached
    cases found
    cases occurs with
    | or among occurs =>
        simp only [List.mem_cons, List.not_mem_nil, or_false] at among
        rcases among with rfl | rfl <;> cases occurs

/-- Neither the other rule, nor the default rule, nor the other attributes matter. -/
theorem decide_eq_of_agree_ownedByMember :
    storeWithDefault.contains "other" = true ∧ storeWithoutDefault.contains "other" = false ∧
      ownedByMember.decide storeWithDefault.rules (ownRequest .null (.string "u2")) =
        ownedByMember.decide storeWithoutDefault.rules (ownRequest (.string "u3") .null) := by
  refine ⟨rfl, rfl, ?_⟩
  apply decide_eq_of_agree ownedByMember storeWithDefault storeWithoutDefault
  · intro name reached
    cases reaches_ownedByMember reached
    rfl
  · exact fun _ _ => .inl rfl
  · intro field matcher _ used
    cases Operand.template_injective (uses_ownedByMember used).1
    exact .inl rfl
  · intro kind field _ used
    cases Operand.template_injective (uses_ownedByMember used).2
    exact .inl rfl

end Evaluation

end AccessPolicy
