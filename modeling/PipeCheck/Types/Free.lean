import PipeCheck.Types.View

/-!
# Free variables of a stored type

Variables are collected from left to right; a quantifier hides its own
variables inside its body only.
-/

namespace PipeCheck
namespace Store

/-- Adds to `found` the variables of a type that are neither hidden by an
enclosing quantifier nor found before. -/
def collectFree (store : Store) :
    Nat → (hidden found : List TypeId) → TypeId → List TypeId
  | 0, _, found, _ => found
  | height + 1, hidden, found, id =>
    match store.shape id with
    | .primitive _ => found
    | .function domain codomain =>
      store.collectFree height hidden
        (store.collectFree height hidden found domain) codomain
    | .list element => store.collectFree height hidden found element
    | .tuple components =>
      components.foldl (fun found component =>
        store.collectFree height hidden found component) found
    | .var _ =>
      if hidden.contains id || found.contains id then found else found ++ [id]
    | .quantified binders body =>
      store.collectFree height (binders ++ hidden) found body

/-- The free variables of a type, each once, in order of first occurrence. -/
def freeVars (store : Store) (id : TypeId) : List TypeId :=
  store.collectFree (id + 1) [] [] id

end Store
end PipeCheck
