import PipeCheck.Types.Rendering

/-!
# Types that are rendered once

The text of a type is kept with the store when it is first asked for.  It is never
rendered again, also after the store has grown.  Listings ask for their texts here; that
all that is rendered in the middle of an operation may be asked for here, too, is proved
in `PipeCheck.Proofs.Memo.Permanence`.
-/

namespace PipeCheck

/-- A store, and the texts of those of its types that have been rendered. -/
structure RenderedStore where
  /-- The store itself. -/
  store : Store
  /-- The texts that are kept, the latest first. -/
  texts : List (TypeId × String) := []

namespace RenderedStore

/-- The text of a type, which is rendered on the first request. -/
def text (id : TypeId) : StateM RenderedStore String :=
  modifyGet fun rendered =>
    match rendered.texts.lookup id with
    | some text => (text, rendered)
    | none =>
      let text := rendered.store.render id
      (text, { rendered with texts := (id, text) :: rendered.texts })

end RenderedStore
end PipeCheck
