import Mathlib.Logic.Relation
import PipeCheck.Expr.Encoding
import PipeCheck.Proofs.Expr.Nodes
import PipeCheck.Proofs.Expr.RecordFields

/-!
# Expressions survive their JSON form

Reading the JSON form of an expression gives the expression back, and a document
reads the same whether its optional fields are left out or written with their
defaults.

Reading is limited by a depth.  A limit that a document keeps to does not matter,
so reading is also described by one equation without any limit, and both results
follow from that equation: the first by induction on the expression, the second by
induction on where in the document a field is written out.
-/

namespace PipeCheck

open List Option Json PipeCheck.Span

variable {fields : List (String × Json)} {name : String} {depth : Nat} {json : Json}

/-! ## Limits that a document keeps to -/

theorem Json.required?_congr {α : Type} {decode other : Json → Option α}
    (agree : ∀ json, fields.lookup name = some json → decode json = other json) :
    required? fields name decode = required? fields name other :=
  bind_congr agree

theorem Json.defaulted?_congr {α : Type} {absent : α} {decode other : Json → Option α}
    (agree : ∀ json, fields.lookup name = some json → decode json = other json) :
    defaulted? fields name absent decode = defaulted? fields name absent other := by
  unfold defaulted?
  cases found : fields.lookup name with
  | none => rfl
  | some json => exact agree json found

theorem Span.ofJson?_eq (within : json.depth ≤ depth) :
    ofJson? depth json = ofJson? 1 json := by
  cases depth with
  | zero =>
    rw [ofJson?, ofJson?, fields?_eq_none_of_depth (Nat.le_zero.1 within)]
    rfl
  | succ depth => rw [ofJson?, ofJson?]

theorem Json.variant?_eq (within : json.depth ≤ depth) :
    json.variant? depth = json.variant? 1 := by
  cases depth with
  | zero =>
    cases json with
    | array items => cases within
    | object members => cases within
    | null | bool | number | string => rfl
  | succ depth => unfold variant?; split <;> simp_all

theorem BinaryOp.ofJson?_eq (within : json.depth ≤ depth) :
    BinaryOp.ofJson? depth json = BinaryOp.ofJson? 1 json := by
  rw [BinaryOp.ofJson?, BinaryOp.ofJson?, variant?_eq within]

namespace Expr

variable {depth : Nat} {content : Json} {read : Json → Option Expr}

theorem leafOfJson?_eq (within : content.depth ≤ depth) (site : Site) (name : String) :
    leafOfJson? depth site name content = leafOfJson? 1 site name content := by
  cases depth with
  | zero =>
    unfold leafOfJson?
    rw [fields?_eq_none_of_depth (Nat.le_zero.1 within)]
    rfl
  | succ depth => rfl

/-- Reads the content of a node, given how subexpressions are read. -/
def contentOf? (read : Json → Option Expr) (site : Site) (name : String) (content : Json) :
    Option Expr :=
  match name with
  | "list" => do
    return .list site (← (← content.items?).mapM read)
  | "tuple" => do
    return .tuple site (← (← content.items?).mapM read)
  | "fn_app" => do
    let fields ← content.fields? ["func", "args"] 2
    let function ← required? fields "func" read
    let arguments ← required? fields "args" items?
    return .apply site function (← arguments.mapM read)
  | "pipe_app" => do
    let fields ← content.fields? ["arg", "func"] 2
    let argument ← required? fields "arg" read
    let function ← required? fields "func" read
    return .pipe site argument function
  | "binary" => do
    let fields ← content.fields? ["op", "left", "right"] 3
    let op ← required? fields "op" (BinaryOp.ofJson? 1)
    let left ← required? fields "left" read
    let right ← required? fields "right" read
    return .binary site op left right
  | "let" => do
    let fields ← content.fields? ["symbol", "init"] 2
    let symbol ← defaulted? fields "symbol" none (optional? uint32?)
    let init ← required? fields "init" read
    return .definition site symbol init
  | _ => leafOfJson? 1 site name content

/-- Reads what a node is, given how subexpressions are read. -/
def kindOf? (read : Json → Option Expr) (site : Site) : Json → Option Expr
  | .string (some name) => ofName? site name
  | .object [(some name, content)] => contentOf? read site name content
  | _ => none

/-- Reads an expression, given how subexpressions are read. -/
def nodeOf? (read : Json → Option Expr) (json : Json) : Option Expr := do
  let fields ← json.fields? ["id", "kind", "span"] 2
  let id ← defaulted? fields "id" NodeId.unnumbered uint32?
  let span ← defaulted? fields "span" {} (Span.ofJson? 1)
  required? fields "kind" (kindOf? read { id, span })

/-- The limited reader agrees with a reader up to a depth. -/
def AgreesBelow (read : Json → Option Expr) (limit : Nat) : Prop :=
  ∀ depth < limit, ∀ json, json.depth ≤ depth → ofJsonWithin? depth json = read json

theorem mapM_congr {other : Json → Option Expr} {items : List Json}
    (agree : ∀ item ∈ items, read item = other item) : items.mapM read = items.mapM other := by
  induction items with
  | nil => rfl
  | cons item rest ih =>
    rw [forall_mem_cons] at agree
    rw [mapM_cons, mapM_cons, agree.1, ih agree.2]

theorem AgreesBelow.items (agrees : AgreesBelow read (depth + 1))
    (within : content.depth ≤ depth + 1) {items : List Json}
    (isArray : content.items? = some items) :
    items.mapM (ofJsonWithin? depth) = items.mapM read := by
  refine mapM_congr fun item mem => agrees depth (Nat.lt_succ_self depth) item ?_
  exact Nat.le_of_lt_succ (Nat.lt_of_lt_of_le (depth_lt_of_mem_items? isArray mem) within)

theorem AgreesBelow.field (agrees : AgreesBelow read (depth + 1))
    (within : content.depth ≤ depth + 1) {names : List String} {least : Nat}
    {fields : List (String × Json)} (reads : content.fields? names least = some fields)
    (name : String) :
    required? fields name (ofJsonWithin? depth) = required? fields name read := by
  refine required?_congr fun json found => agrees depth (Nat.lt_succ_self depth) json ?_
  exact Nat.le_of_lt_succ (Nat.lt_of_lt_of_le (depth_lt_of_lookup reads found) within)

theorem contentOfJson?_eq (agrees : AgreesBelow read depth) (within : content.depth ≤ depth)
    (site : Site) (name : String) :
    contentOfJson? depth site name content = contentOf? read site name content := by
  cases depth with
  | zero =>
    rw [contentOfJson?]
    unfold contentOf?
    split
    case h_7 => exact leafOfJson?_eq within _ _
    all_goals
      cases content with
      | array items => cases within
      | object members => cases within
      | null | bool | number | string => rfl
  | succ depth =>
    unfold contentOf?
    split
    · rw [contentOfJson?]
      refine bind_congr fun items isArray => ?_
      rw [agrees.items within isArray]
    · rw [contentOfJson?]
      refine bind_congr fun items isArray => ?_
      rw [agrees.items within isArray]
    · rw [contentOfJson?]
      refine bind_congr fun fields reads => ?_
      rw [agrees.field within reads]
      refine bind_congr fun fn _ => ?_
      refine bind_congr fun args isField => ?_
      obtain ⟨json, found, isArray⟩ := bind_eq_some_iff.1 isField
      have jsonWithin : json.depth ≤ depth :=
        Nat.le_of_lt_succ (Nat.lt_of_lt_of_le (depth_lt_of_lookup reads found) within)
      -- The arguments are one level below the array that lists them.
      cases depth with
      | zero =>
        rw [items?_eq_none_of_depth (Nat.le_zero.1 jsonWithin)] at isArray
        cases isArray
      | succ depth =>
        have agreesBelow : AgreesBelow read (depth + 1) :=
          fun smaller below => agrees smaller (Nat.lt_succ_of_lt below)
        dsimp only
        rw [agreesBelow.items jsonWithin isArray]
    · rw [contentOfJson?]
      refine bind_congr fun fields reads => ?_
      rw [agrees.field within reads, agrees.field within reads]
    · rw [contentOfJson?]
      refine bind_congr fun fields reads => ?_
      have sameOp : required? fields "op" (BinaryOp.ofJson? depth) =
          required? fields "op" (BinaryOp.ofJson? 1) := by
        refine required?_congr fun json found => BinaryOp.ofJson?_eq ?_
        exact Nat.le_of_lt_succ (Nat.lt_of_lt_of_le (depth_lt_of_lookup reads found) within)
      rw [sameOp, agrees.field within reads, agrees.field within reads]
    · rw [contentOfJson?]
      refine bind_congr fun fields reads => ?_
      rw [agrees.field within reads]
    · next noList noTuple noApply noPipe noBinary noLet =>
      rw [contentOfJson?, leafOfJson?_eq within]
      all_goals assumption

theorem ofJsonWithin?_eq (agrees : AgreesBelow read depth) {json : Json}
    (within : json.depth ≤ depth) :
    ofJsonWithin? depth json = nodeOf? read json := by
  cases depth with
  | zero =>
    rw [ofJsonWithin?, nodeOf?, fields?_eq_none_of_depth (Nat.le_zero.1 within)]
    rfl
  | succ depth =>
    rw [ofJsonWithin?, nodeOf?]
    refine bind_congr fun fields reads => ?_
    refine bind_congr fun id _ => ?_
    have fieldWithin : ∀ name value, fields.lookup name = some value → value.depth ≤ depth :=
      fun name value found =>
        Nat.le_of_lt_succ (Nat.lt_of_lt_of_le (depth_lt_of_lookup reads found) within)
    have sameSpan : defaulted? fields "span" {} (Span.ofJson? depth) =
        defaulted? fields "span" {} (Span.ofJson? 1) :=
      defaulted?_congr fun json found => Span.ofJson?_eq (fieldWithin "span" json found)
    rw [sameSpan]
    refine bind_congr fun span _ => ?_
    refine bind_congr fun kind found => ?_
    have kindWithin := fieldWithin "kind" kind found
    cases kind with
    | null | bool | number => rfl
    | string content => cases content <;> rfl
    | array items => rfl
    | object members =>
      rcases members with _ | ⟨⟨_ | name, content⟩, _ | ⟨second, others⟩⟩
      · rfl
      · rfl
      · rfl
      · -- Only an object with one member has a content, two levels down.
        cases depth with
        | zero => cases kindWithin
        | succ depth =>
          refine contentOfJson?_eq (fun smaller below => agrees smaller (by omega)) ?_ _ _
          exact Nat.le_trans (Nat.le_max_left _ _) (Nat.le_of_succ_le_succ kindWithin)
      · rfl

/-- A limit that a document keeps to does not matter. -/
theorem ofJsonWithin?_eq_ofJson? {json : Json} (within : json.depth ≤ depth) :
    ofJsonWithin? depth json = ofJson? json := by
  induction depth using Nat.strongRecOn generalizing json with
  | _ depth ih =>
    have agrees : AgreesBelow ofJson? depth :=
      fun smaller below document withinSmaller => ih smaller below withinSmaller
    have agreesBelow : AgreesBelow ofJson? json.depth :=
      fun smaller below => agrees smaller (Nat.lt_of_lt_of_le below within)
    rw [ofJsonWithin?_eq agrees within, ofJson?, ofJsonWithin?_eq agreesBelow (Nat.le_refl _)]

/-- Reading an expression, without a limit. -/
theorem ofJson?_eq (json : Json) : ofJson? json = nodeOf? ofJson? json :=
  ofJsonWithin?_eq (fun _ _ _ within => ofJsonWithin?_eq_ofJson? within) (Nat.le_refl _)

end Expr

/-! ## Reading what was written -/

theorem Json.fields?_record {names : List String} (known : ∀ field ∈ fields, field.1 ∈ names)
    (distinct : (fields.map Prod.fst).Nodup) (least : Nat) :
    (record fields).fields? names least = some fields := by
  have reads : knownMembers? names (fields.map fun field => (some field.1, field.2)) =
      some fields := by
    clear distinct
    induction fields with
    | nil => rfl
    | cons field rest ih =>
      rw [forall_mem_cons] at known
      rw [map_cons, knownMembers?, ih known.2, map_some, if_pos (contains_iff_mem.2 known.1)]
  unfold record fields?
  dsimp only
  rw [reads, bind_some, if_pos (keysDistinct_iff.2 distinct)]

theorem Json.required?_of_lookup {α : Type} (found : fields.lookup name = some json)
    (decode : Json → Option α) :
    required? fields name decode = decode json := by
  rw [required?, found, bind_some]

theorem Json.defaulted?_of_lookup {α : Type} (found : fields.lookup name = some json) (absent : α)
    (decode : Json → Option α) : defaulted? fields name absent decode = decode json := by
  rw [defaulted?, found]

theorem Json.int?_integer {least bound value : Int} (atLeast : least ≤ value)
    (below : value < bound) : (number (.integer value)).int? least bound = some value :=
  if_pos ⟨atLeast, below⟩

theorem Json.uint32?_nat (value : UInt32) : (nat value.toNat).uint32? = some value := by
  rw [uint32?, nat, int?_integer (Int.natCast_nonneg _) (Int.ofNat_lt.2 value.toNat_lt_size),
    map_some, Int.toNat_natCast, Nat.toUInt32_eq, UInt32.ofNat_toNat]

theorem Json.uint64?_nat (value : UInt64) : (nat value.toNat).uint64? = some value := by
  rw [uint64?, nat, int?_integer (Int.natCast_nonneg _) (Int.ofNat_lt.2 value.toNat_lt_size),
    map_some, Int.toNat_natCast, Nat.toUInt64_eq, UInt64.ofNat_toNat]

theorem Json.int64?_integer (value : Int64) :
    (number (.integer value.toInt)).int64? = some value := by
  have greatest : value.toInt < Int64.maxValue.toInt + 1 := Int.lt_add_one_iff.2 value.toInt_le
  rw [int64?, int?_integer value.minValue_le_toInt greatest, map_some,
    Int.toInt64, Int64.ofInt_toInt]

theorem Span.ofJson?_toJson (span : Span) : ofJson? 1 span.toJson = some span := by
  rw [ofJson?, toJson, fields?_record (by simp) (by simp), bind_eq_bind,
    bind_some, required?_of_lookup rfl, uint64?_nat, required?_of_lookup rfl, uint64?_nat]
  rfl

theorem BinaryOp.ofJson?_jsonName (op : BinaryOp) :
    BinaryOp.ofJson? 1 (.text op.jsonName) = some op := by
  cases op <;> rfl

namespace Expr

variable {short long : Json}

theorem optional?_symbolJson (symbol : Option SymbolId) :
    optional? uint32? (symbolJson symbol) = some symbol := by
  cases symbol with
  | none => rfl
  | some symbol =>
    have isNumber : optional? uint32? (.nat symbol.toNat) =
        (nat symbol.toNat).uint32?.map some := rfl
    rw [symbolJson, isNumber, uint32?_nat, map_some]

theorem ofJson?_nodeJson (site : Site) (kind : Json) :
    ofJson? (nodeJson site kind) = kindOf? ofJson? site kind := by
  rw [ofJson?_eq, nodeOf?, nodeJson, fields?_record (by simp) (by simp), bind_eq_bind,
    bind_some, defaulted?_of_lookup rfl, uint32?_nat, bind_eq_bind,
    bind_some, defaulted?_of_lookup rfl, ofJson?_toJson]
  rfl

theorem kindOf?_record (read : Json → Option Expr) (site : Site) (name : String) (content : Json) :
    kindOf? read site (.record [(name, content)]) = contentOf? read site name content := rfl

theorem contentOf?_symbol (read : Json → Option Expr) (site : Site) (content : Json) :
    contentOf? read site "symbol" content = leafOfJson? 1 site "symbol" content := rfl

theorem mapM_allToJson {exprs : List Expr}
    (each : ∀ expr ∈ exprs, ofJson? expr.toJson = some expr) :
    (allToJson exprs).mapM ofJson? = some exprs := by
  induction exprs with
  | nil => rfl
  | cons expr rest ih =>
    rw [forall_mem_cons] at each
    rw [allToJson, mapM_cons, each.1, ih each.2]
    rfl

theorem kindOf?_toJson (site : Site) (value : Literal) :
    kindOf? ofJson? site value.toJson = some (.literal site value) := by
  cases value with
  | str | file | glob => rfl
  | int value =>
    have isInteger : kindOf? ofJson? site (Literal.int value).toJson =
        (number (.integer value.toInt)).int64?.map fun value => .literal site (.int value) :=
      rfl
    rw [isInteger, int64?_integer, map_some]
  | bool value => rfl
  | unit => rfl

/-- Reading the JSON form of an expression gives the expression back. -/
theorem ofJson?_toJson (expr : Expr) : ofJson? expr.toJson = some expr := by
  induction expr with
  | reference site name symbol =>
    rw [toJson, ofJson?_nodeJson, kindOf?_record, contentOf?_symbol, leafOfJson?,
      fields?_record (by simp) (by simp)]
    simp [required?, defaulted?, text?, text, optional?_symbolJson, lookup_cons]
  | literal site value =>
    rw [toJson, ofJson?_nodeJson]
    exact kindOf?_toJson site value
  | list site items each =>
    rw [toJson, ofJson?_nodeJson, kindOf?_record, contentOf?]
    simp [items?, mapM_allToJson each]
  | tuple site items each =>
    rw [toJson, ofJson?_nodeJson, kindOf?_record, contentOf?]
    simp [items?, mapM_allToJson each]
  | apply site fn args fnIH each =>
    rw [toJson, ofJson?_nodeJson, kindOf?_record, contentOf?, fields?_record (by simp) (by simp)]
    simp [required?, items?, fnIH, mapM_allToJson each, lookup_cons]
  | pipe site arg fn argIH fnIH =>
    rw [toJson, ofJson?_nodeJson, kindOf?_record, contentOf?, fields?_record (by simp) (by simp)]
    simp [required?, argIH, fnIH, lookup_cons]
  | binary site op left right leftIH rightIH =>
    rw [toJson, ofJson?_nodeJson, kindOf?_record, contentOf?, fields?_record (by simp) (by simp)]
    simp [required?, BinaryOp.ofJson?_jsonName, leftIH, rightIH, lookup_cons]
  | definition site symbol init initIH =>
    rw [toJson, ofJson?_nodeJson, kindOf?_record, contentOf?, fields?_record (by simp) (by simp)]
    simp [required?, defaulted?, optional?_symbolJson, initIH, lookup_cons]
  | placeholder site =>
    rw [toJson, ofJson?_nodeJson]
    rfl

/-! ## Optional fields -/

/-- What a value in a document stands for. -/
inductive Part where
  | node
  /-- The content of a node, by its name. -/
  | content (name : String)

/-- The fields that hold a subexpression: the name of the content, its fields in
order, and the field. -/
def subexpressions : List (String × List String × String) :=
  [("fn_app", ["func", "args"], "func"), ("pipe_app", ["arg", "func"], "arg"),
    ("pipe_app", ["arg", "func"], "func"), ("binary", ["op", "left", "right"], "left"),
    ("binary", ["op", "left", "right"], "right"), ("let", ["symbol", "init"], "init")]

/-- The second value is the first with one optional field written out, at the
value itself or at any node inside it.  Objects may have their members in any
order and others besides, and any record may be an array. -/
inductive WritesOut : Part → Json → Json → Prop where
  | id {left right : List (Option String × Json)}
      (absent : ∀ member ∈ left ++ right, member.1 ≠ some "id") :
      WritesOut .node (.object (left ++ right))
        (.object (left ++ (some "id", .nat NodeId.unnumbered.toNat) :: right))
  | span {left right : List (Option String × Json)}
      (absent : ∀ member ∈ left ++ right, member.1 ≠ some "span") :
      WritesOut .node (.object (left ++ right))
        (.object (left ++ (some "span", Span.toJson {}) :: right))
  | lastSpan (id kind : Json) :
      WritesOut .node (.array [id, kind]) (.array [id, kind, Span.toJson {}])
  | kind {context : Json → Json} {name : String} {short long : Json}
      (slot : Slot ["id", "kind", "span"] "kind" context)
      (inside : WritesOut (.content name) short long) :
      WritesOut .node (context (.record [(name, short)])) (context (.record [(name, long)]))
  | symbol {left right : List (Option String × Json)} {name : String}
      (hasSymbol : name = "symbol" ∨ name = "let")
      (absent : ∀ member ∈ left ++ right, member.1 ≠ some "symbol") :
      WritesOut (.content name) (.object (left ++ right))
        (.object (left ++ (some "symbol", .null) :: right))
  | item {left right : List Json} {name : String} {short long : Json}
      (isSequence : name = "list" ∨ name = "tuple") (inside : WritesOut .node short long) :
      WritesOut (.content name) (.array (left ++ short :: right)) (.array (left ++ long :: right))
  | argument {context : Json → Json} {left right : List Json} {short long : Json}
      (slot : Slot ["func", "args"] "args" context) (inside : WritesOut .node short long) :
      WritesOut (.content "fn_app") (context (.array (left ++ short :: right)))
        (context (.array (left ++ long :: right)))
  | subexpression {context : Json → Json} {name key : String} {names : List String}
      {short long : Json} (isSubexpression : (name, names, key) ∈ subexpressions)
      (slot : Slot names key context) (inside : WritesOut .node short long) :
      WritesOut (.content name) (context short) (context long)

/-- Two values that read the same as a part of a document. -/
def ReadsLike : Part → Json → Json → Prop
  | .node, short, long => ofJson? short = ofJson? long
  | .content name, short, long =>
    ∀ site, contentOf? ofJson? site name short = contentOf? ofJson? site name long

theorem mapM_middle {left right : List Json} (same : ofJson? short = ofJson? long) :
    (left ++ short :: right).mapM ofJson? = (left ++ long :: right).mapM ofJson? := by
  rw [mapM_append, mapM_append, mapM_cons, mapM_cons, same]

/-- A zero span reads like a span that is left out. -/
theorem ofJson?_eq_of_span (change : Rel (FieldChange "span" none (some (Span.toJson {})))
      (short.fields? ["id", "kind", "span"] 2) (long.fields? ["id", "kind", "span"] 2)) :
    ofJson? short = ofJson? long := by
  rw [ofJson?_eq, ofJson?_eq]
  refine bind_eq_of_rel change fun fields changed change => ?_
  rw [change.defaulted?_of_ne (by decide), change.defaulted?_eq (Span.ofJson?_toJson {})]
  simp only [change.required?_of_ne (show "kind" ≠ "span" by decide)]

/-- Writing out an optional field does not change what a document reads as. -/
theorem WritesOut.readsLike {part : Part} (writes : WritesOut part short long) :
    ReadsLike part short long := by
  induction writes with
  | id absent =>
    rw [ReadsLike, ofJson?_eq, ofJson?_eq]
    refine bind_eq_of_rel (fields?_insert (by decide) 2 absent _) ?_
    intro fields changed change
    rw [change.defaulted?_eq (uint32?_nat _), change.defaulted?_of_ne (by decide)]
    simp only [change.required?_of_ne (show "kind" ≠ "id" by decide)]
  | span absent => exact ofJson?_eq_of_span (fields?_insert (by decide) 2 absent _)
  | lastSpan id kind =>
    have missing : "span" ∉ ([("id", id), ("kind", kind)] ++ []).map Prod.fst := by simp
    exact ofJson?_eq_of_span (.some (fieldChange_insert missing _))
  | kind slot inside ih =>
    rw [ReadsLike, ofJson?_eq, ofJson?_eq]
    refine bind_eq_of_rel (slot.fields? (by decide) (by decide) 2 _ _) ?_
    intro fields changed change
    rw [change.defaulted?_of_ne (by decide), change.defaulted?_of_ne (by decide)]
    refine bind_congr fun id _ => bind_congr fun span _ => ?_
    exact change.required?_eq (ih { id, span })
  | symbol hasSymbol absent =>
    intro site
    rcases hasSymbol with rfl | rfl
    · rw [contentOf?_symbol, contentOf?_symbol, leafOfJson?, leafOfJson?]
      refine bind_eq_of_rel (fields?_insert (by decide) 2 absent _) ?_
      intro fields changed change
      rw [change.required?_of_ne (by decide), change.defaulted?_eq (optional?_symbolJson none)]
    · rw [contentOf?, contentOf?]
      refine bind_eq_of_rel (fields?_insert (by decide) 2 absent _) ?_
      intro fields changed change
      rw [change.defaulted?_eq (optional?_symbolJson none), change.required?_of_ne (by decide)]
  | item isSequence inside ih =>
    intro site
    rcases isSequence with rfl | rfl
    · rw [contentOf?, contentOf?, items?, items?, bind_eq_bind,
        bind_some, bind_eq_bind, bind_some, mapM_middle ih]
    · rw [contentOf?, contentOf?, items?, items?, bind_eq_bind,
        bind_some, bind_eq_bind, bind_some, mapM_middle ih]
  | argument slot inside ih =>
    intro site
    rw [contentOf?, contentOf?]
    refine bind_eq_of_rel (slot.fields? (by decide) (by decide) 2 _ _) ?_
    intro fields changed change
    rw [change.required?_of_ne (by decide), required?_of_lookup change.lookup_old,
      required?_of_lookup change.lookup_new, items?, items?]
    refine bind_congr fun fn _ => ?_
    rw [bind_eq_bind, bind_some, bind_eq_bind, bind_some, mapM_middle ih]
  | subexpression isSubexpression slot inside ih =>
    intro site
    simp only [subexpressions, mem_cons, Prod.mk.injEq, not_mem_nil, or_false] at isSubexpression
    rcases isSubexpression with ⟨rfl, rfl, rfl⟩ | ⟨rfl, rfl, rfl⟩ | ⟨rfl, rfl, rfl⟩ |
      ⟨rfl, rfl, rfl⟩ | ⟨rfl, rfl, rfl⟩ | ⟨rfl, rfl, rfl⟩
    all_goals
      rw [contentOf?, contentOf?]
      refine bind_eq_of_rel (slot.fields? (by decide) (by decide) _ _ _) ?_
      intro fields changed change
    · rw [change.required?_eq ih, change.required?_of_ne (by decide)]
    · rw [change.required?_eq ih, change.required?_of_ne (by decide)]
    · rw [change.required?_of_ne (by decide), change.required?_eq ih]
    · rw [change.required?_of_ne (by decide), change.required?_eq ih,
        change.required?_of_ne (by decide)]
    · rw [change.required?_of_ne (by decide), change.required?_of_ne (by decide),
        change.required?_eq ih]
    · rw [change.defaulted?_of_ne (by decide), change.required?_eq ih]

/-- Reading inverts writing, and a document reads the same with its optional fields
left out or written as the id of unnumbered nodes, the empty span and null. -/
theorem ofJson?_toJson_and_omissions (expr : Expr) :
    ofJson? expr.toJson = some expr ∧
      ∀ short long, Relation.ReflTransGen (WritesOut .node) short long →
        ofJson? short = ofJson? long := by
  refine ⟨ofJson?_toJson expr, ?_⟩
  intro short long writes
  induction writes with
  | refl => rfl
  | tail _ writes ih => exact ih.trans writes.readsLike

/-- A definition by the unit value, all of whose optional fields are left out. -/
def bareDefinition : Json :=
  .record [("kind", .record [("let",
    .record [("init", .record [("kind", .text "unit")])])])]

theorem ofJson?_bareDefinition :
    Relation.ReflTransGen (WritesOut .node) bareDefinition
        (toJson (.definition {} none (.literal {} .unit))) ∧
      ofJson? bareDefinition = some (.definition {} none (.literal {} .unit)) := by
  have site (kind : Json) :
      Relation.ReflTransGen (WritesOut .node) (.record [("kind", kind)]) (nodeJson {} kind) :=
    .head (@WritesOut.id [] [(some "kind", kind)] (by simp))
      (.single (@WritesOut.span
        [(some "id", .nat NodeId.unnumbered.toNat), (some "kind", kind)] [] (by simp)))
  have symbol (init : Json) : WritesOut (.content "let") (.record [("init", init)])
      (.record [("symbol", .null), ("init", init)]) :=
    @WritesOut.symbol [] [(some "init", init)] "let" (.inr rfl) (by simp)
  have isInit : ("let", ["symbol", "init"], "init") ∈ subexpressions := by simp [subexpressions]
  have init (short long : Json) (inside : WritesOut .node short long) :
      WritesOut .node (.record [("kind", .record [("let", .record [("init", short)])])])
        (.record [("kind", .record [("let", .record [("init", long)])])]) :=
    .kind (Slot.member [] []) (.subexpression isInit (Slot.member [] []) inside)
  -- The fields are written out from the inside to the outside.
  have writes : Relation.ReflTransGen (WritesOut .node) bareDefinition
      (toJson (.definition {} none (.literal {} .unit))) :=
    ((site (.text "unit")).lift _ init).trans
      (.head (.kind (Slot.member [] []) (symbol _)) (site _))
  obtain ⟨inverts, omits⟩ := ofJson?_toJson_and_omissions (.definition {} none (.literal {} .unit))
  exact ⟨writes, (omits _ _ writes).trans inverts⟩

end Expr
end PipeCheck
