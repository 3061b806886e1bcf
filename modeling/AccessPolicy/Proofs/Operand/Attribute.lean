import AccessPolicy.Operand
import Mathlib.Data.List.Basic

/-! # Operands that name attributes

The texts that look up an attribute are the templates of their names, and every name but
the empty one has its template.
-/

namespace AccessPolicy

namespace Operand

/-- The text of an operand that looks up an attribute. -/
def template (field : String) : String :=
  "\x7b\x7b." ++ field ++ "\x7d\x7d"

theorem template_injective : Function.Injective template := by
  intro first second same
  have characters := congrArg String.toList same
  simp only [template, String.toList_append] at characters
  exact String.toList_injective (List.append_cancel_left (List.append_cancel_right characters))

theorem attributeName?_eq_some {text name : List Char} (named : attributeName? text = some name) :
    name ≠ [] ∧ text = ['\x7b', '\x7b', '.'] ++ name ++ ['\x7d', '\x7d'] := by
  unfold attributeName? at named
  split at named
  · contradiction
  · rename_i rest opened
    have front := List.isPrefixOf?_eq_some_iff_append_eq.mp opened
    split at named
    · contradiction
    · contradiction
    · rename_i inner nonempty closed
      have back := List.isSuffixOf?_eq_some_iff_append_eq.mp closed
      cases named
      refine ⟨nonempty, ?_⟩
      rw [← front, ← back, List.append_assoc]

/-- Only a template looks up an attribute, and only the one it names. -/
theorem ofText?_eq_attribute {text field : String}
    (written : ofText? text = some (.attribute field)) : field ≠ "" ∧ text = template field := by
  unfold ofText? at written
  split at written
  · simp at written
  · split at written
    · simp at written
    · split at written
      · simp at written
      · split at written
        · simp at written
        · obtain ⟨name, named, same⟩ := Option.map_eq_some_iff.mp written
          obtain ⟨nonempty, spelled⟩ := attributeName?_eq_some named
          cases same
          refine ⟨fun empty => nonempty (String.ofList_eq_empty_iff.mp empty), ?_⟩
          apply String.toList_injective
          simp only [spelled, template, String.toList_append, String.toList_ofList]
          rfl

/-! ## Templates are read as their names -/

theorem attributeName?_template {name : List Char} (nonempty : name ≠ []) :
    attributeName? (['\x7b', '\x7b', '.'] ++ name ++ ['\x7d', '\x7d']) = some name := by
  have opened : ['\x7b', '\x7b', '.'].isPrefixOf?
      (['\x7b', '\x7b', '.'] ++ name ++ ['\x7d', '\x7d']) = some (name ++ ['\x7d', '\x7d']) :=
    List.isPrefixOf?_eq_some_iff_append_eq.mpr (List.append_assoc _ _ _).symm
  have closed : ['\x7d', '\x7d'].isSuffixOf? (name ++ ['\x7d', '\x7d']) = some name :=
    List.isSuffixOf?_eq_some_iff_append_eq.mpr rfl
  rw [attributeName?, opened]
  simp only [closed]

/-- What begins with a brace is no number. -/
theorem numeral?_of_brace {text : String} {rest : List Char}
    (opens : text.toList = '\x7b' :: rest) : numeral? text = none := by
  have bytes : Text.utf8 text = 123 :: rest.flatMap String.utf8EncodeChar := by
    rw [Text.utf8, opens, List.flatMap_cons]
    rfl
  rw [numeral?, bytes]
  rfl

/-- A template is read as the name in it. -/
theorem ofText?_template {field : String} (named : field ≠ "") :
    ofText? (template field) = some (.attribute field) := by
  have characters : (template field).toList =
      ['\x7b', '\x7b', '.'] ++ field.toList ++ ['\x7d', '\x7d'] := by
    rw [template, String.toList_append, String.toList_append]
    rfl
  have word {other : String} (begins : other.toList.head? ≠ some '\x7b') :
      template field ≠ other := by
    rintro rfl
    exact begins (by rw [characters]; rfl)
  have nonempty : field.toList ≠ [] := fun empty => named (String.toList_eq_nil_iff.mp empty)
  have unquoted : Text.unquote? (template field).toList = none := by
    rw [characters, List.cons_append, List.cons_append, Text.unquote?]
    split <;> rfl
  rw [ofText?, if_neg (word (by decide)), if_neg (word (by decide)), numeral?_of_brace characters,
    unquoted, characters, attributeName?_template nonempty]
  simp

theorem resolve?_template_number {field : String} (named : field ≠ "") {attributes : Json}
    {number : Json.Numeral} (found : attributes.get? field = some (.number number)) :
    resolve? (template field) attributes = some (.number number) := by
  rw [resolve?, ofText?_template named, Option.bind_some, value?, found]

end Operand

end AccessPolicy
