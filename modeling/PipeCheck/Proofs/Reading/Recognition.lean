import PipeCheck.Proofs.Reading.Tokens

/-!
# Every written type is read

A text that spells a phrase is read as that phrase, whatever may follow it, and
the type built is what the phrase means.  Together with the converse this says
which texts are read and what they become.
-/

namespace PipeCheck

open List Text Phrase Written

namespace Reader

variable {before : Cursor}

/-- A type has been read, up to the tokens that follow it. -/
structure Recognised (following : List String) (before after : Cursor) (written : Written)
    (id : TypeId) : Prop where
  /-- The tokens that follow are left. -/
  awaits : after.Awaits following
  /-- A type with named variables has been read. -/
  read : HasRead after before id
  /-- It means what is written. -/
  understands : after.Understands before written (after.store.tree id)

/-- The components of a tuple have been read. -/
structure RecognisedAll (following : List String) (before after : Cursor) (rest : List Written)
    (ids : List TypeId) : Prop where
  /-- The tokens that follow are left. -/
  awaits : after.Awaits following
  /-- The scope is the same. -/
  advances : after.Advances before
  /-- The components are stored. -/
  inside : ∀ id ∈ ids, id < after.store.size
  /-- They mean what is written. -/
  understands : after.Understands before (.tuple rest) (.tuple (ids.map after.store.tree))

end Reader

namespace Phrase

open Reader

variable {phrase : Phrase} {following others : List String} {rest : List Written}

/-- The tokens that may follow a phrase. -/
def closers : Phrase → List String
  | .type => [",", ")", "]"]
  | .atom => ["->", ",", ")", "]"]
  | .further => [")"]

/-- What comes next does not belong to the phrase. -/
def EndsAt (phrase : Phrase) (following : List String) : Prop :=
  ∀ token ∈ following.head?, token ∈ phrase.closers

/-- Where its tokens stand a phrase is read and understood. -/
def Recognises : Phrase → Written → List String → Prop
  | .type, written, tokens => ∀ ⦃fuel following before⦄, 2 * tokens.length + 2 ≤ fuel →
      before.Valid → before.Awaits (tokens ++ following) → EndsAt .type following →
      Succeeds (Reader.type fuel) before fun id after =>
        Recognised following before after written id
  | .atom, written, tokens => ∀ ⦃fuel following before⦄, 2 * tokens.length + 1 ≤ fuel →
      before.Valid → before.Awaits (tokens ++ following) → EndsAt .atom following →
      Succeeds (Reader.atom fuel) before fun id after =>
        Recognised following before after written id
  | .further, .tuple rest, tokens => ∀ ⦃fuel following before⦄, 2 * tokens.length + 1 ≤ fuel →
      before.Valid → before.Awaits (tokens ++ following) → EndsAt .further following →
      Succeeds (Reader.components fuel) before fun ids after =>
        RecognisedAll following before after rest ids
  | .further, _, _ => True

theorem lead_ne_of_endsAt {char : Char} (endsAt : phrase.EndsAt following)
    (different : ∀ token ∈ phrase.closers, token.toList.head? ≠ some char) :
    lead following ≠ some char := by
  cases following with
  | nil => simp [lead]
  | cons token following => exact different token (endsAt token rfl)

theorem endsAt_cons {token : String} (mem : token ∈ phrase.closers) :
    phrase.EndsAt (token :: following) := by
  rintro _ ⟨⟩
  exact mem

theorem EndsAt.mono {other : Phrase} (endsAt : phrase.EndsAt following)
    (subset : ∀ token ∈ phrase.closers, token ∈ other.closers) :
    other.EndsAt following :=
  fun token isNext => subset token (endsAt token isNext)

theorem EndsAt.closes (endsAt : phrase.EndsAt following) :
    Cursor.Closes following := by
  intro token isNext
  have subset : ∀ token ∈ phrase.closers, token ∈ Cursor.closers := by
    cases phrase <;> decide
  exact subset token (endsAt token isNext)

/-- After the first component of a tuple comes a comma or the end of the
tuple. -/
theorem endsAt_further (derives : further.Derives (.tuple rest) others)
    (endsAt : EndsAt .further following) :
    EndsAt .type (others ++ following) := by
  cases derives with
  | done => exact endsAt.mono (by decide)
  | next => exact endsAt_cons (by decide)

section Rules

variable {fuel : Nat} {before : Cursor} {tokens following : List String} {written : Written}

/-- There is fuel for the first step of a type, and its variables are accounted for
anyhow. -/
theorem recognises_type (succeeds : ∀ {fuel following before},
    2 * tokens.length + 2 ≤ fuel + 1 → before.Valid → before.Awaits (tokens ++ following) →
      EndsAt .type following →
      Succeeds (Reader.type (fuel + 1)) before fun id after => after.Awaits following ∧
        after.Understands before written (after.store.tree id)) :
    Recognises .type written tokens := by
  intro fuel following before enough valid awaits endsAt
  cases fuel with
  | zero => omega
  | succ fuel =>
    refine (((readsBelow _).type valid).succeeds (succeeds enough valid awaits endsAt)).mono ?_
    rintro id after ⟨⟨awaits, understands⟩, read⟩
    exact ⟨awaits, read, understands⟩

theorem recognises_atom (succeeds : ∀ {fuel following before},
    2 * tokens.length + 1 ≤ fuel + 1 → before.Valid → before.Awaits (tokens ++ following) →
      EndsAt .atom following →
      Succeeds (Reader.atom (fuel + 1)) before fun id after => after.Awaits following ∧
        after.Understands before written (after.store.tree id)) :
    Recognises .atom written tokens := by
  intro fuel following before enough valid awaits endsAt
  cases fuel with
  | zero => omega
  | succ fuel =>
    refine (((readsBelow _).atom valid).succeeds (succeeds enough valid awaits endsAt)).mono ?_
    rintro id after ⟨⟨awaits, understands⟩, read⟩
    exact ⟨awaits, read, understands⟩

/-- A type that does not start with a quantifier starts with an atom. -/
theorem succeeds_domain {post : TypeId → Cursor → Prop}
    (derives : atom.Derives written tokens) (recognises : Recognises .atom written tokens)
    (enough : 2 * tokens.length + 1 ≤ fuel) (valid : before.Valid)
    (awaits : before.Awaits (tokens ++ following)) (endsAt : EndsAt .atom following)
    (rest : ∀ domain mid, Recognised following before mid written domain →
      Succeeds (do
        if ← accept "->" then
          let codomain ← Reader.type fuel
          alloc (Alloc.function domain codomain)
        else
          return domain) mid post) :
    Succeeds (Reader.type (fuel + 1)) before post := by
  obtain ⟨first, mem, leadEq⟩ := derives.lead_mem.resolve_left (by simp) following
  have notForall : lead (tokens ++ following) ≠ some 'f' := by
    rw [leadEq]
    rintro ⟨⟩
    revert mem
    decide
  rw [Reader.type]
  refine (succeeds_skipBlanks awaits).bind ?_
  rintro _ start ⟨faces, same⟩
  refine (succeeds_forallWord_of_lead_ne faces notForall).bind ?_
  rintro _ _ ⟨rfl, rfl⟩
  refine (recognises enough (same.advances valid).valid faces.toAwaits endsAt).bind ?_
  intro domain mid recognised
  exact rest domain mid ⟨recognised.awaits, recognised.read.of_advances (same.advances valid),
    recognised.understands.of_sameNames same⟩

theorem recognises_of_atom (derives : atom.Derives written tokens)
    (recognises : Recognises .atom written tokens) :
    Recognises .type written tokens := by
  refine recognises_type fun enough valid awaits endsAt => ?_
  refine succeeds_domain derives recognises (by omega) valid awaits (endsAt.mono (by decide)) ?_
  intro domain mid recognised
  refine (succeeds_accept_of_lead_ne '-' recognised.awaits rfl
    (lead_ne_of_endsAt endsAt (by decide))).bind ?_
  rintro _ last ⟨⟨rfl, lastAwaits⟩, storeEq, scopeEq, freeEq⟩
  refine succeeds_pure ⟨lastAwaits, ?_⟩
  rw [storeEq]
  exact recognised.understands.congr scopeEq freeEq rfl rfl

theorem recognises_function {domain codomain : Written}
    (derives : atom.Derives domain tokens)
    (recognisesDomain : Recognises .atom domain tokens)
    (recognisesCodomain : Recognises .type codomain others) :
    Recognises .type (.function domain codomain) (tokens ++ "->" :: others) := by
  refine recognises_type fun enough valid awaits endsAt => ?_
  simp only [length_append, length_cons] at enough
  rw [append_assoc] at awaits
  refine succeeds_domain derives recognisesDomain (by omega) valid awaits
    (endsAt_cons (by decide)) ?_
  intro domainId mid domainRecognised
  have domainValid := domainRecognised.read.advances.valid
  refine (succeeds_accept domainRecognised.awaits).bind ?_
  rintro _ afterArrow ⟨⟨rfl, arrowAwaits⟩, same⟩
  have arrow := same.advances domainValid
  refine (recognisesCodomain (by omega) arrow.valid arrowAwaits endsAt).bind ?_
  intro codomainId last codomainRecognised
  have advances := codomainRecognised.read.advances.trans arrow
  apply succeeds_alloc
  refine (Alloc.yields_function advances.valid.wellFormed
    (domainRecognised.read.later advances).inside codomainRecognised.read.inside).mono ?_
  rintro id store ⟨built, _⟩
  refine ⟨codomainRecognised.awaits.of_rest_eq rfl, ?_⟩
  rw [built.tree_eq, domainRecognised.read.tree_eq advances]
  exact (domainRecognised.understands.function
    (codomainRecognised.understands.of_sameNames same)).congr rfl rfl rfl rfl

theorem succeeds_restoringScope {α : Type} {read : Reader α} (inner : α → Cursor → Prop)
    {post : α → Cursor → Prop} (succeeds : Succeeds read before inner)
    (leave : ∀ value after, inner value after → post value { after with scope := before.scope }) :
    Succeeds (restoringScope read) before post := by
  refine succeeds_get_bind (succeeds.bind ?_)
  intro value after holds
  exact succeeds_modify_pure (leave value after holds)

/-- A quantifier has been read with its body, but its scope not been left. -/
def ReadUnder (following names : List String) (body : Written) (before : Cursor) (id : TypeId)
    (after : Cursor) : Prop :=
  after.Awaits following ∧ ∃ (afterVars afterBody : Cursor) (ids : List TypeId) (tree : Tree),
    afterVars.Binds before names ids ∧ afterBody.Valid ∧
      afterBody.Understands afterVars body tree ∧ after.free = afterBody.free ∧
        after.store.tree id = .quantified ids tree

variable {names : List String} {body : Written}

theorem ReadUnder.leave {after : Cursor} {id : TypeId} (valid : before.Valid)
    (readUnder : ReadUnder following names body before id after) :
    ({ after with scope := before.scope } : Cursor).Awaits following ∧
      ({ after with scope := before.scope } : Cursor).Understands before (.quantified names body)
        (after.store.tree id) := by
  obtain ⟨awaits, afterVars, afterBody, ids, tree, binds, bodyValid, understands, freeEq, treeEq⟩ :=
    readUnder
  refine ⟨awaits.of_rest_eq rfl, ?_⟩
  rw [treeEq]
  exact binds.quantified valid bodyValid understands rfl freeEq

section

variable (nonempty : names ≠ []) (areNames : ∀ name ∈ names, IsName name)
  (recognises : Recognises .type body tokens)

include nonempty areNames recognises

theorem succeeds_underQuantifier
    (enoughNames : names.length ≤ fuel) (enough : 2 * tokens.length + 2 ≤ fuel)
    (valid : before.Valid)
    (awaits : before.Awaits (listed names ++ "." :: (tokens ++ following)))
    (endsAt : EndsAt .type following) :
    Succeeds (do
      let vars ← binders fuel
      expect "."
      let body ← Reader.type fuel
      alloc (Alloc.quantified vars body)) before (ReadUnder following names body before) := by
  refine ((reads_binders valid).succeeds
    (succeeds_binders nonempty areNames enoughNames awaits)).bind ?_
  rintro ids afterVars ⟨⟨varsAwaits, lengthEq, scopeEq, freeEq⟩, bound, _⟩
  refine (succeeds_expect varsAwaits).bind ?_
  rintro _ afterDot ⟨dotAwaits, same⟩
  have dot := same.advances bound.valid
  refine (recognises enough dot.valid dotAwaits endsAt).bind ?_
  intro bodyId afterBody recognised
  have advances := recognised.read.advances.trans dot
  apply succeeds_alloc
  refine (Alloc.yields_quantified advances.valid.wellFormed recognised.read.inside ?_
    fun _ => bound.nodup).mono ?_
  · intro id listed
    refine advances.valid.vars id (.inl ?_)
    rw [Cursor.scopeIds, advances.scope_eq]
    exact (bound.mem_scopeIds id).2 (.inl listed)
  · rintro id store ⟨built, _⟩
    exact ⟨recognised.awaits.of_rest_eq rfl, afterVars, afterBody, ids, _,
      ⟨bound, lengthEq, scopeEq, freeEq⟩, advances.valid,
      recognised.understands.of_sameNames same, rfl, built.tree_eq⟩

theorem recognises_quantified :
    Recognises .type (.quantified names body)
      ("forall" :: listed names ++ "." :: tokens) := by
  refine recognises_type fun enough valid awaits endsAt => ?_
  have namesLength : names.length ≤ (listed names).length := length_le_length_listed
  simp only [length_append, length_cons] at enough
  rw [append_assoc, cons_append, cons_append] at awaits
  rw [Reader.type]
  refine (succeeds_skipBlanks awaits).bind ?_
  rintro _ start ⟨faces, startSame⟩
  refine (succeeds_forallWord faces).bind ?_
  rintro _ afterWord ⟨⟨rfl, wordAwaits⟩, wordSame⟩
  have started := wordSame.advances (startSame.advances valid).valid
  refine succeeds_restoringScope _ (succeeds_underQuantifier nonempty areNames recognises
    (by omega) (by omega) started.valid wordAwaits endsAt) ?_
  intro id after readUnder
  obtain ⟨afterAwaits, understands⟩ := readUnder.leave started.valid
  exact ⟨afterAwaits, (understands.of_sameNames wordSame).of_sameNames startSame⟩

end

theorem recognises_done : Recognises .further (.tuple []) [] := by
  intro fuel following before enough valid awaits endsAt
  cases fuel with
  | zero => omega
  | succ fuel =>
    rw [Reader.components]
    refine (succeeds_accept_of_lead_ne ',' awaits rfl
      (lead_ne_of_endsAt endsAt (by decide))).bind ?_
    rintro _ last ⟨⟨rfl, lastAwaits⟩, same⟩
    exact succeeds_pure ⟨lastAwaits, same.advances valid, by simp,
      Cursor.understands_noComponent same.2.1 same.2.2⟩

theorem recognises_next {first : Written} (recognisesFirst : Recognises .type first tokens)
    (derivesRest : further.Derives (.tuple rest) others)
    (recognisesRest : Recognises .further (.tuple rest) others) :
    Recognises .further (.tuple (first :: rest)) ("," :: tokens ++ others) := by
  intro fuel following before enough valid awaits endsAt
  simp only [length_append, length_cons] at enough
  rw [append_assoc, cons_append] at awaits
  cases fuel with
  | zero => omega
  | succ fuel =>
    rw [Reader.components]
    refine (succeeds_accept awaits).bind ?_
    rintro _ afterComma ⟨⟨rfl, commaAwaits⟩, same⟩
    have comma := same.advances valid
    refine (recognisesFirst (by omega) comma.valid commaAwaits
      (endsAt_further derivesRest endsAt)).bind ?_
    intro firstId afterFirst firstRecognised
    refine (recognisesRest (by omega) firstRecognised.read.advances.valid
      firstRecognised.awaits endsAt).bind ?_
    intro ids last restRecognised
    have firstRead := firstRecognised.read.later restRecognised.advances
    refine succeeds_pure ⟨restRecognised.awaits, firstRead.advances.trans comma,
      forall_mem_cons.2 ⟨firstRead.inside, restRecognised.inside⟩, ?_⟩
    rw [map_cons, firstRecognised.read.tree_eq restRecognised.advances]
    exact (firstRecognised.understands.component restRecognised.understands).of_sameNames same

theorem recognises_var {name : String} (isName : IsName name) :
    Recognises .atom (.var name) [primed name] := by
  refine recognises_atom fun _ valid awaits endsAt => ?_
  rw [Reader.atom]
  refine (succeeds_skipBlanks awaits).bind ?_
  rintro _ start ⟨faces, same⟩
  have head : start.rest.head? = some '\'' := by
    rw [faces.head?]
    simp [lead]
  refine succeeds_get_bind (succeeds_get_bind ?_)
  rw [head]
  refine (succeeds_varName isName faces endsAt.closes).bind ?_
  rintro found afterName ⟨⟨rfl, nameAwaits⟩, nameSame⟩
  have advances := nameSame.advances (same.advances valid).valid
  refine (succeeds_resolveVar advances.valid found).mono ?_
  rintro id after ⟨restEq, understands⟩
  exact ⟨nameAwaits.of_rest_eq restEq, (understands.of_sameNames nameSame).of_sameNames same⟩

theorem recognises_list {element : Written} (recognises : Recognises .type element tokens) :
    Recognises .atom (.list element) ("[" :: tokens ++ ["]"]) := by
  refine recognises_atom fun enough valid awaits _ => ?_
  simp only [length_append, length_cons] at enough
  rw [append_assoc, cons_append] at awaits
  rw [Reader.atom]
  refine (succeeds_skipBlanks awaits).bind ?_
  rintro _ start ⟨faces, startSame⟩
  refine succeeds_get_bind (succeeds_get_bind ?_)
  rw [show start.rest.head? = some '[' from faces.head?]
  refine (succeeds_token faces).bind ?_
  rintro _ afterBracket ⟨⟨rfl, bracketAwaits⟩, bracketSame⟩
  have bracket := bracketSame.advances (startSame.advances valid).valid
  refine (recognises (by omega) bracket.valid bracketAwaits (endsAt_cons (by decide))).bind ?_
  intro elementId afterElement recognised
  refine (succeeds_expect recognised.awaits).bind ?_
  rintro _ last ⟨lastAwaits, storeEq, scopeEq, freeEq⟩
  apply succeeds_alloc
  rw [storeEq]
  refine (Alloc.yields_list recognised.read.advances.valid.wellFormed
    recognised.read.inside).mono ?_
  rintro id store ⟨built, _⟩
  refine ⟨lastAwaits.of_rest_eq rfl, ?_⟩
  rw [built.tree_eq]
  exact ((recognised.understands.list.of_sameNames bracketSame).of_sameNames
    startSame).congr scopeEq freeEq rfl rfl

/-- An opening parenthesis is followed by a unit type, a group or a tuple. -/
theorem succeeds_opened {post : TypeId → Cursor → Prop}
    (awaits : before.Awaits ("(" :: tokens))
    (rest : ∀ afterOpen, afterOpen.Awaits tokens → afterOpen.SameNames before →
      Succeeds (parenthesised fuel) afterOpen post) :
    Succeeds (Reader.atom (fuel + 1)) before post := by
  rw [Reader.atom]
  refine (succeeds_skipBlanks awaits).bind ?_
  rintro _ start ⟨faces, startSame⟩
  refine succeeds_get_bind (succeeds_get_bind ?_)
  rw [show start.rest.head? = some '(' from faces.head?]
  refine (succeeds_token_of_lead_ne '[' faces rfl (by simp [lead])).bind ?_
  rintro _ _ ⟨rfl, rfl⟩
  refine (succeeds_token faces).bind ?_
  rintro _ afterOpen ⟨⟨rfl, openAwaits⟩, openSame⟩
  exact rest afterOpen openAwaits (openSame.trans startSame)

theorem recognises_unit : Recognises .atom (.primitive .unit) ["(", ")"] := by
  refine recognises_atom fun _ valid awaits _ => ?_
  refine succeeds_opened awaits ?_
  intro afterOpen openAwaits openSame
  refine (succeeds_accept openAwaits).bind ?_
  rintro _ last ⟨⟨rfl, lastAwaits⟩, lastSame⟩
  exact succeeds_primitive valid lastAwaits (lastSame.trans openSame) .unit

/-- What stands in parentheses is not the unit type. -/
theorem succeeds_first {post : TypeId → Cursor → Prop}
    (derives : type.Derives written tokens) (recognises : Recognises .type written tokens)
    (enough : 2 * tokens.length + 2 ≤ fuel) (valid : before.Valid)
    (awaits : before.Awaits ("(" :: tokens ++ following)) (endsAt : EndsAt .type following)
    (rest : ∀ first mid, Recognised following before mid written first →
      Succeeds (do
        if ← accept ")" then
          return first
        else
          let others ← Reader.components fuel
          expect ")"
          alloc (Alloc.tuple (first :: others))) mid post) :
    Succeeds (Reader.atom (fuel + 1)) before post := by
  obtain ⟨first, mem, leadEq⟩ := derives.lead_mem.resolve_left (by simp) following
  have notClosed : lead (tokens ++ following) ≠ some ')' := by
    rw [leadEq]
    rintro ⟨⟩
    revert mem
    decide
  refine succeeds_opened awaits ?_
  intro afterOpen openAwaits openSame
  refine (succeeds_accept_of_lead_ne ')' openAwaits rfl notClosed).bind ?_
  rintro _ start ⟨⟨rfl, startAwaits⟩, startSame⟩
  have started := startSame.advances (openSame.advances valid).valid
  refine (recognises enough started.valid startAwaits endsAt).bind ?_
  intro firstId mid recognised
  exact rest firstId mid ⟨recognised.awaits,
    recognised.read.of_advances (started.trans (openSame.advances valid)),
    (recognised.understands.of_sameNames startSame).of_sameNames openSame⟩

theorem recognises_group (derives : type.Derives written tokens)
    (recognises : Recognises .type written tokens) :
    Recognises .atom written ("(" :: tokens ++ [")"]) := by
  refine recognises_atom fun enough valid awaits _ => ?_
  simp only [length_append, length_cons] at enough
  rw [append_assoc] at awaits
  refine succeeds_first derives recognises (by omega) valid awaits (endsAt_cons (by decide)) ?_
  intro id mid recognised
  refine (succeeds_accept recognised.awaits).bind ?_
  rintro _ last ⟨⟨rfl, lastAwaits⟩, storeEq, scopeEq, freeEq⟩
  refine succeeds_pure ⟨lastAwaits, ?_⟩
  rw [storeEq]
  exact recognised.understands.congr scopeEq freeEq rfl rfl

theorem recognises_tuple {first second : Written} (derivesFirst : type.Derives first tokens)
    (recognisesFirst : Recognises .type first tokens)
    (derivesRest : further.Derives (.tuple (second :: rest)) others)
    (recognisesRest : Recognises .further (.tuple (second :: rest)) others) :
    Recognises .atom (.tuple (first :: second :: rest)) ("(" :: tokens ++ others ++ [")"]) := by
  refine recognises_atom fun {_ following _} enough valid awaits _ => ?_
  simp only [length_append, length_cons] at enough
  rw [append_assoc, append_assoc] at awaits
  have closes : EndsAt .further ([")"] ++ following) := endsAt_cons (by decide)
  refine succeeds_first derivesFirst recognisesFirst (by omega) valid awaits
    (endsAt_further derivesRest closes) ?_
  intro firstId mid firstRecognised
  have notClosed : lead (others ++ ([")"] ++ following)) ≠ some ')' := by
    cases derivesRest
    simp [lead]
  refine (succeeds_accept_of_lead_ne ')' firstRecognised.awaits rfl notClosed).bind ?_
  rintro _ start ⟨⟨rfl, startAwaits⟩, startSame⟩
  have started := startSame.advances firstRecognised.read.advances.valid
  refine (recognisesRest (by omega) started.valid startAwaits closes).bind ?_
  intro ids afterRest restRecognised
  refine (succeeds_expect restRecognised.awaits).bind ?_
  rintro _ last ⟨lastAwaits, storeEq, scopeEq, freeEq⟩
  have advances := restRecognised.advances.trans started
  apply succeeds_alloc
  rw [storeEq]
  refine (Alloc.yields_tuple restRecognised.advances.valid.wellFormed
    (forall_mem_cons.2 ⟨(firstRecognised.read.later advances).inside,
      restRecognised.inside⟩)).mono ?_
  rintro id store ⟨built, _⟩
  refine ⟨lastAwaits.of_rest_eq rfl, ?_⟩
  rw [built.tree_eq, map_cons, firstRecognised.read.tree_eq advances]
  exact (firstRecognised.understands.component
    (restRecognised.understands.of_sameNames startSame)).congr scopeEq freeEq rfl rfl

/-- What starts with neither a quote, a bracket nor a parenthesis. -/
theorem succeeds_wordAtom {char : Char} {post : TypeId → Cursor → Prop}
    (awaits : before.Awaits tokens) (leadEq : lead tokens = some char)
    (other : char ∉ ['\'', '[', '('])
    (rest : ∀ start, start.Faces tokens → start.SameNames before →
      Succeeds (do
        if ← token "<invalid>" then
          alloc (Alloc.primitive .invalid)
        else if char.isAlpha then
          typeName start.offset
        else
          throw (.unexpectedChar char start.offset)) start post) :
    Succeeds (Reader.atom (fuel + 1)) before post := by
  simp only [mem_cons, not_mem_nil, or_false, not_or] at other
  rw [Reader.atom]
  refine (succeeds_skipBlanks awaits).bind ?_
  rintro _ start ⟨faces, same⟩
  refine succeeds_get_bind (succeeds_get_bind ?_)
  rw [faces.head?, leadEq]
  simp only [if_neg other.1]
  refine (succeeds_token_of_lead_ne '[' faces rfl (by simp [leadEq, other])).bind ?_
  rintro _ _ ⟨rfl, rfl⟩
  refine (succeeds_token_of_lead_ne '(' faces rfl (by simp [leadEq, other])).bind ?_
  rintro _ _ ⟨rfl, rfl⟩
  exact rest _ faces same

theorem recognises_invalid : Recognises .atom (.primitive .invalid) ["<invalid>"] := by
  refine recognises_atom fun _ valid awaits _ => ?_
  refine succeeds_wordAtom awaits rfl (by decide) ?_
  intro start faces same
  refine (succeeds_token faces).bind ?_
  rintro _ last ⟨⟨rfl, lastAwaits⟩, lastSame⟩
  exact succeeds_primitive valid lastAwaits (lastSame.trans same) .invalid

theorem recognises_name {text : String} {which : Primitive} (mem : (text, which) ∈ typeNames) :
    Recognises .atom (.primitive which) [text] := by
  refine recognises_atom fun {_ following _} _ valid awaits _ => ?_
  have letters : ∀ entry ∈ typeNames, entry.1.toList.head?.any fun char =>
      char ∉ ['\'', '[', '('] ∧ char ≠ '<' ∧ char.isAlpha := by
    decide
  obtain ⟨char, leadEq, holds⟩ := (Option.any_eq_true _ _).1 (letters _ mem)
  obtain ⟨other, notAngle, isAlpha⟩ := of_decide_eq_true holds
  refine succeeds_wordAtom awaits leadEq other ?_
  intro start faces same
  have notInvalid : lead ([text] ++ following) ≠ some '<' := by
    change text.toList.head? ≠ some '<'
    simpa [leadEq] using notAngle
  refine (succeeds_token_of_lead_ne '<' faces rfl notInvalid).bind ?_
  rintro _ _ ⟨rfl, rfl⟩
  rw [if_neg (by decide), if_pos isAlpha]
  refine (succeeds_typeName mem faces _ (same.advances valid).valid).mono ?_
  rintro id after ⟨afterAwaits, understands⟩
  exact ⟨afterAwaits, understands.of_sameNames same⟩

end Rules

/-- Every phrase is read where its tokens stand. -/
theorem Derives.recognises {written : Written} {tokens : List String}
    (derives : phrase.Derives written tokens) :
    phrase.Recognises written tokens := by
  induction derives with
  | quantified nonempty areNames _ bodyIH =>
    exact recognises_quantified nonempty areNames bodyIH
  | atom derives ih => exact recognises_of_atom derives ih
  | function derivesDomain _ domainIH codomainIH =>
    exact recognises_function derivesDomain domainIH codomainIH
  | var isName => exact recognises_var isName
  | list _ elementIH => exact recognises_list elementIH
  | unit => exact recognises_unit
  | group derives ih => exact recognises_group derives ih
  | tuple derivesFirst derivesRest firstIH restIH =>
    exact recognises_tuple derivesFirst firstIH derivesRest restIH
  | invalid => exact recognises_invalid
  | name mem => exact recognises_name mem
  | done => exact recognises_done
  | next _ derivesRest firstIH restIH =>
    exact recognises_next firstIH derivesRest restIH

end Phrase
namespace Reader

variable {before : Cursor} {written : Written} {tokens : List String}

theorem succeeds_generalise {start : Cursor} {id : TypeId} (read : HasRead before start id) :
    Succeeds (generalise id) before fun result after =>
      after.store.tree result = (before.store.tree id).generalised before.freeIds := by
  refine succeeds_get_bind ?_
  unfold Tree.generalised
  dsimp only
  split
  · next noFree =>
      rw [if_pos (by exact noFree)]
      exact succeeds_pure rfl
  · next someFree =>
      rw [if_neg (by exact someFree)]
      apply succeeds_alloc
      exact (yields_generalised read).mono fun result store built => built.tree_eq

/-- A text that spells a written type is read to its end, and the type is what
it denotes. -/
theorem succeeds_wholeType {fuel : Nat} (valid : before.Valid) (outside : before.scope = [])
    (nothing : before.free = []) (derives : Phrase.type.Derives written tokens)
    (spells : Spells tokens before.rest) (enough : 2 * tokens.length + 2 ≤ fuel) :
    Succeeds (wholeType fuel) before fun id after => written.Denotes (after.store.tree id) := by
  have awaits : before.Awaits (tokens ++ []) := by
    rw [append_nil]
    exact ⟨spells, derives.isVisible_of_mem⟩
  refine (derives.recognises enough valid awaits (by rintro _ ⟨⟩)).bind ?_
  intro id afterType recognised
  refine (succeeds_skipBlanks recognised.awaits).bind ?_
  rintro _ last ⟨faces, same⟩
  have read := recognised.read.of_sameNames same
  have atEnd : last.rest = [] := by
    rw [← faces.settled, faces.spells.dropWhile_nil]
  refine succeeds_get_bind ?_
  rw [if_pos (by simp [atEnd])]
  refine (succeeds_generalise read).mono ?_
  intro result final treeEq
  have understands : last.Understands before written (last.store.tree id) := by
    rw [same.1]
    exact recognised.understands.congr same.2.1 same.2.2 rfl rfl
  have resolves : last.Resolves fun name => (last.resolve? name).getD 0 := by
    intro name id found
    simp [found]
  have freeIds := understands.meets.freeIds_eq outside nothing resolves
  refine ⟨_, _, understands.means _ resolves, ?_, ?_⟩
  · rw [freeIds]
    exact read.advances.valid.nodup
  · rw [freeIds, treeEq]

end Reader

namespace Alloc

/-- A written type is read in every well-formed store. -/
theorem succeeds_read {store : Store} (wf : store.WellFormed) {text : String}
    {written : Written} (isText : written.IsText text) :
    Succeeds (read text) store fun id last => written.Denotes (last.tree id) := by
  obtain ⟨tokens, derives, spells⟩ := isText
  have room : 2 * tokens.length + 2 ≤ readingDepth text.length := by
    have shorter := spells.length_le derives.isVisible_of_mem
    rw [String.length_toList] at shorter
    unfold readingDepth
    omega
  exact Reader.succeeds_wholeType (Cursor.valid_start wf text) rfl rfl derives spells room

/-- Reading succeeds exactly on the texts of the grammar, and the type built is
what the derivation denotes. -/
theorem read_isOk_iff_isText {store : Store} (wellFormed : store.WellFormed) (text : String) :
    (((read text).run.run store).1.isOk ↔ ∃ written : Written, written.IsText text) ∧
      ∀ written : Written, written.IsText text →
        Succeeds (read text) store fun id last => written.Denotes (last.tree id) := by
  refine ⟨⟨?_, ?_⟩, fun written isText => succeeds_read wellFormed isText⟩
  · intro isOk
    rcases runEq : (read text).run.run store with ⟨outcome, last⟩
    cases outcome with
    | error failure =>
      rw [runEq] at isOk
      cases isOk
    | ok id => exact exists_isText_of_read runEq
  · rintro ⟨written, isText⟩
    obtain ⟨id, ok, _⟩ := succeeds_read wellFormed isText
    exact congrArg Except.isOk ok

/-- Blanks may stand before every token, and a variable need not be bound. -/
theorem read_blanksAndPair :
    Store.empty.WellFormed ∧
      (∃ written : Written, written.IsText " forall 'a.( 'a ,[Int]) -> () -> 'b ") ∧
        ¬∃ written : Written, written.IsText "(Int,)" :=
  ⟨Store.wellFormed_empty,
    (read_isOk_iff_isText Store.wellFormed_empty _).1.1 (by decide +kernel),
    fun isText => absurd ((read_isOk_iff_isText Store.wellFormed_empty _).1.2 isText)
      (by decide +kernel)⟩

end Alloc
end PipeCheck
