import AccessPolicy.Proofs.Evaluation.Cycles
import AccessPolicy.Proofs.Evaluation.Dependence

/-! # Granting more

Without negations nothing is denied because something is true. So when every role and
every comparison that a check uses stays true, the check stays allowed: other branches
may be followed than before, and chains may be cut in other places, but what was true at
the end of a chain is still true there. Only the budget of references can deny what was
allowed, because more may be met on the way.
-/

namespace AccessPolicy

open Evaluation in
/-- Deciding a check meets more references than one evaluation may follow. -/
def Check.ExceedsBudget (check : Check) (rules : Table Check) (request : Request) : Prop :=
  (evaluate rules request (enterFirst rules request) check .start).2.exhausted = true

instance (check : Check) (rules : Table Check) (request : Request) :
    Decidable (check.ExceedsBudget rules request) :=
  inferInstanceAs (Decidable (_ = true))

namespace Evaluation

variable {rules : Table Check} {check : Check} {first second : Request} {chain : List String}
  {name : String}

theorem exceedsBudget_iff (check : Check) (rules : Table Check) (request : Request) :
    check.ExceedsBudget rules request ↔
      greatestSteps < (check.met rules request []).length := by
  have follows := check.follows_decide rules request
  rw [Check.ExceedsBudget, ← Nat.not_le, ← Check.affords_start]
  constructor
  · intro exhausted affords
    rw [(follows.within affords).2.2] at exhausted
    contradiction
  · exact follows.beyond

/-- Every role and every comparison that a check uses and that is true for the first
request is true for the second. -/
structure LeavesKept (rules : Table Check) (check : Check) (first second : Request) : Prop where
  roles : ∀ role, Uses rules check (.role role) →
    first.hasRole role = true → second.hasRole role = true
  comparisons : ∀ kind matcher, Uses rules check (.compare kind matcher) →
    first.agree kind matcher = true → second.agree kind matcher = true

namespace LeavesKept

/-- More roles keep all leaves if nothing else is different and no comparison looks at the
roles. -/
theorem of_moreRoles (target : first.target = second.target)
    (others : ∀ field, field ≠ "roles" → first.credentials.AgreeAt field second.credentials)
    (unread : ∀ matcher, ¬ Uses rules check (.compare (Operand.template "roles") matcher))
    (roles : ∀ role, first.hasRole role = true → second.hasRole role = true) :
    LeavesKept rules check first second where
  roles role _ := roles role
  comparisons kind matcher used granted := by
    rw [← granted]
    symm
    apply Request.agree_congr
    · rintro field - rfl
      apply others
      rintro rfl
      exact unread matcher used
    · intro field _ _
      exact .inl (congrArg (Json.get? field) target)

variable (kept : LeavesKept rules check first second)
  (free : ∀ inner, ¬ Uses rules check (.not inner))

include kept free

/-- What is true at the end of a chain for the first request is true there for the
second. -/
theorem truth_eq_true (reached : Reaches rules check name)
    (granted : truth rules first chain name = true) : truth rules second chain name = true := by
  generalize room : greatestDepth - chain.length = left
  induction left using Nat.strongRecOn generalizing chain name with
  | ind left ih =>
      obtain ⟨body, found, acyclic, short, inside⟩ :=
        (Check.meaning_rule_eq_true_iff rules first chain name).mp granted
      refine (Check.meaning_rule_eq_true_iff rules second chain name).mpr
        ⟨body, found, acyclic, short, ?_⟩
      refine holds_of_leaves (fun inner occurs => free inner (.body reached found occurs))
        (fun role occurs => kept.roles role (.body reached found occurs))
        (fun kind matcher occurs => kept.comparisons kind matcher (.body reached found occurs))
        (fun other mentioned deeper => ?_) inside
      refine ih _ ?_ (reached.through found mentioned) deeper rfl
      rw [List.length_append, List.length_singleton]
      omega

theorem meaning_eq_true (allowed : check.meaning rules first [] = true) :
    check.meaning rules second [] = true :=
  holds_of_leaves (fun inner occurs => free inner (.tree occurs))
    (fun role occurs => kept.roles role (.tree occurs))
    (fun kind matcher occurs => kept.comparisons kind matcher (.tree occurs))
    (fun _ mentioned granted => kept.truth_eq_true free (.mention mentioned) granted) allowed

end LeavesKept

/-- **Granting more never revokes.** Let no negation occur in a check or in the rules it
reaches. If every leaf it uses stays true from one request to another, a check that is
allowed for the first is allowed for the second, unless deciding it goes beyond the budget
of references. So it is when the credentials of the second list more roles, are the same
otherwise, and no used comparison looks at the roles. -/
theorem allowed_of_leaves_kept (free : ∀ inner, ¬ Uses rules check (.not inner)) :
    (∀ first second : Request, LeavesKept rules check first second →
      (check.decide rules first).allowed = true →
        (check.decide rules second).allowed = true ∨ check.ExceedsBudget rules second) ∧
    ∀ first second : Request, first.target = second.target →
      (∀ field, field ≠ "roles" → first.credentials.AgreeAt field second.credentials) →
      (∀ matcher, ¬ Uses rules check (.compare (Operand.template "roles") matcher)) →
      (∀ role, first.hasRole role = true → second.hasRole role = true) →
      (check.decide rules first).allowed = true →
        (check.decide rules second).allowed = true ∨ check.ExceedsBudget rules second := by
  have allowed : ∀ first second : Request, LeavesKept rules check first second →
      (check.decide rules first).allowed = true →
        (check.decide rules second).allowed = true ∨ check.ExceedsBudget rules second := by
    intro first second kept allowed
    rw [Check.allowed_decide, Bool.and_eq_true] at allowed
    rw [exceedsBudget_iff, Check.allowed_decide, kept.meaning_eq_true free allowed.1,
      Bool.true_and, decide_eq_true_eq]
    exact (Nat.lt_or_ge _ _).symm
  refine ⟨allowed, fun first second target others unread roles => ?_⟩
  exact allowed first second (.of_moreRoles target others unread roles)

/-! ## A role that opens a way into a cycle -/

/-- A guest is referred to rules that refer to each other; a member needs no rule. -/
def guestOrMember : Check :=
  .or [.and [.role "guest", .rule "a"], .role "member"]

theorem mem_of_uses_guestOrMember {part : Check} (used : Uses mutualRules guestOrMember part) :
    part ∈ [guestOrMember, .and [.role "guest", .rule "a"], .role "guest", .rule "a",
      .role "member", .rule "b", .or [.rule "a", .role "member"]] := by
  rcases used with occurs | ⟨_, found, occurs⟩
  · cases occurs with
    | whole => simp
    | or among occurs =>
        simp only [List.mem_cons, List.not_mem_nil, or_false] at among
        rcases among with rfl | rfl
        · cases occurs with
          | whole => simp
          | and among occurs =>
              simp only [List.mem_cons, List.not_mem_nil, or_false] at among
              rcases among with rfl | rfl <;> cases occurs <;> simp
        · cases occurs
          simp
  · have member := Table.mem_entries_of_get? found
    simp only [mutualRules, List.mem_cons, Prod.mk.injEq, List.not_mem_nil, or_false] at member
    rcases member with ⟨_, rfl⟩ | ⟨_, rfl⟩
    · cases occurs
      simp
    · cases occurs with
      | whole => simp
      | or among occurs =>
          simp only [List.mem_cons, List.not_mem_nil, or_false] at among
          rcases among with rfl | rfl <;> cases occurs <;> simp

theorem get?_requestOf (roles : List String) {field : String} (other : field ≠ "roles") :
    (requestOf roles).credentials.get? field = none := by
  simp only [requestOf, Json.get?, Table.lookup_entry, other, ↓reduceIte, List.lookup_nil]

theorem hasRole_requestOf (roles : List String) (role : String) :
    (requestOf roles).hasRole role = true ↔ role ∈ roles := by
  rw [Request.hasRole_eq_true_iff]
  simp [requestOf, Json.get?]

/-- A member who becomes a guest too meets three references that were not met before, the
last of which is cut, and stays allowed. -/
theorem allowed_of_leaves_kept_guestOrMember :
    (guestOrMember.met mutualRules (requestOf ["member"]) []).length = 0 ∧
      (guestOrMember.met mutualRules (requestOf ["guest", "member"]) []).length = 3 ∧
      ¬ guestOrMember.ExceedsBudget mutualRules (requestOf ["guest", "member"]) ∧
      (guestOrMember.decide mutualRules (requestOf ["guest", "member"])).allowed = true := by
  have free : ∀ inner, ¬ Uses mutualRules guestOrMember (.not inner) := by
    intro inner used
    simpa [guestOrMember] using mem_of_uses_guestOrMember used
  have within : ¬ guestOrMember.ExceedsBudget mutualRules (requestOf ["guest", "member"]) := by
    decide +kernel
  refine ⟨by decide +kernel, by decide +kernel, within, Or.resolve_right ?_ within⟩
  apply (allowed_of_leaves_kept free).2 (requestOf ["member"])
  · rfl
  · intro field other
    rw [Json.AgreeAt, get?_requestOf _ other, get?_requestOf _ other]
    exact .inl rfl
  · intro matcher used
    simpa [guestOrMember] using mem_of_uses_guestOrMember used
  · intro role listed
    rw [hasRole_requestOf] at listed ⊢
    exact List.mem_cons_of_mem _ listed
  · decide +kernel

end Evaluation

end AccessPolicy
