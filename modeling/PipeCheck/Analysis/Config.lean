import PipeCheck.Json.Fields
import PipeCheck.Types.Application

/-!
# Settings of the analysis
-/

namespace PipeCheck

/-- How a list literal gets its element type. -/
inductive ListPolicy where
  /-- The last element decides; the others are not compared with it. -/
  | lastElement
  /-- All elements must have a common instance. -/
  | unify
deriving DecidableEq, Repr

/-- The settings of an analysis. -/
structure Config where
  /-- How the elements of a list are typed. -/
  listLiterals : ListPolicy := .lastElement
  /-- Which variables of a result stay quantified. -/
  quantifiers : QuantifierPolicy := .keepAll
deriving DecidableEq, Repr

section Decisions

instance (holds : ListPolicy → Prop) [DecidablePred holds] : Decidable (∀ policy, holds policy) :=
  decidable_of_iff (holds .lastElement ∧ holds .unify)
    ⟨fun both policy => policy.rec both.1 both.2, fun all => ⟨all _, all _⟩⟩

instance (holds : QuantifierPolicy → Prop) [DecidablePred holds] :
    Decidable (∀ policy, holds policy) :=
  decidable_of_iff (holds .keepAll ∧ holds .prune)
    ⟨fun both policy => policy.rec both.1 both.2, fun all => ⟨all _, all _⟩⟩

/-- What holds under all settings is found by trying them. -/
instance (holds : Config → Prop) [DecidablePred holds] : Decidable (∀ config, holds config) :=
  decidable_of_iff (∀ listLiterals quantifiers, holds ⟨listLiterals, quantifiers⟩)
    ⟨fun all config => all config.listLiterals config.quantifiers, fun all _ _ => all _⟩

end Decisions

namespace ListPolicy

/-- The name of a policy in a document. -/
def name : ListPolicy → String
  | .lastElement => "last_element"
  | .unify => "unify"

/-- Reads a policy. -/
def ofJson? (depth : Nat) (json : Json) : Option ListPolicy := do
  match ← json.variant? depth with
  | "last_element" => some .lastElement
  | "unify" => some .unify
  | _ => none

end ListPolicy

namespace QuantifierPolicy

/-- The name of a policy in a document. -/
def name : QuantifierPolicy → String
  | .keepAll => "keep_all"
  | .prune => "prune"

/-- Reads a policy. -/
def ofJson? (depth : Nat) (json : Json) : Option QuantifierPolicy := do
  match ← json.variant? depth with
  | "keep_all" => some .keepAll
  | "prune" => some .prune
  | _ => none

end QuantifierPolicy

namespace Config

/-- Reads settings; those left out have their usual values. -/
def ofJson? : (depth : Nat) → Json → Option Config
  | 0, _ => none
  | depth + 1, json => do
    let fields ← json.fields? ["list_literals", "quantifiers"] 0
    let listLiterals ←
      Json.defaulted? fields "list_literals" .lastElement (ListPolicy.ofJson? depth)
    let quantifiers ←
      Json.defaulted? fields "quantifiers" .keepAll (QuantifierPolicy.ofJson? depth)
    return { listLiterals, quantifiers }

/-- Settings in which the stricter policies have been asked for. -/
def override (config : Config) (unifyLists pruneQuantifiers : Bool) : Config :=
  { listLiterals := if unifyLists then .unify else config.listLiterals
    quantifiers := if pruneQuantifiers then .prune else config.quantifiers }

end Config
end PipeCheck
