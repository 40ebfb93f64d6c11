import TreeFlow.Proofs.Tree.Trimming

/-!
# Reading what was written

Whatever is written for a tree is read as that tree, and so is what is left of it when members are left out that may
be, with the defaults of the storage classes and of the tree's own fields in their place (`Tree.round_trips`). The
lemmas follow the format from its leaves up, one for each record and each choice: what is left of a value that was
written for `a` is read as `a` with the defaults that belong there (`Tree.withDefaults`).

The one thing that cannot be written is a float that is not finite (`Format.decode?_encode_eq_none`).
-/

namespace TreeFlow

open Format

/-! ### Defaults in place of what is missing -/

theorem mapIdx_self (items : List α) : (items.mapIdx fun _ a => a) = items :=
  (List.mapIdx_eq_iff.2 fun _ => Option.map_id'.symm).symm ▸ rfl

/-- The declaration with the default in place of a storage class that is left out. -/
def VariableDecl.withDefaults (gone : Omissions) (v : VariableDecl) : VariableDecl :=
  { v with storage := if gone.has "storage" then .normal else v.storage }

/-- The function with the default in place of a storage class that is left out. -/
def FunctionDecl.withDefaults (gone : Omissions) (d : FunctionDecl) : FunctionDecl :=
  { d with storage := if gone.has "storage" then .normal else d.storage }

/-- The struct or union with the default in place of each storage class that is left out. -/
def AggregateDecl.withDefaults (gone : Omissions) (a : AggregateDecl) : AggregateDecl :=
  { a with fields := a.fields.map fun fields => fields.mapIdx fun i v =>
      v.withDefaults ((gone.member "fields").item i) }

/-- The type specifier with the default in place of each storage class that is left out. -/
def SpecKind.withDefaults (gone : Omissions) : SpecKind → SpecKind
  | .struct decl => .struct (decl.withDefaults (gone.member "Struct"))
  | .union decl => .union (decl.withDefaults (gone.member "Union"))
  | k => k

/-- The statement with the default in place of each storage class that is left out. -/
def StmtKind.withDefaults (gone : Omissions) : StmtKind → StmtKind
  | .variable decl => .variable (decl.withDefaults (gone.member "Variable"))
  | .function decl => .function (decl.withDefaults (gone.member "Function"))
  | .struct decl => .struct (decl.withDefaults (gone.member "Struct"))
  | .union decl => .union (decl.withDefaults (gone.member "Union"))
  | k => k

/-- The node with `settle` of its kind. -/
def Node.withDefaults (settle : Omissions → α → α) (gone : Omissions) (n : Node α) : Node α :=
  { n with kind := settle (gone.member "kind") n.kind }

/-- The tree with the default in place of each of its own fields that is left out, and in place of each storage class
that is left out in what remains. -/
def Tree.withDefaults (gone : Omissions) (t : Tree) : Tree where
  file := if gone.has "file" then "" else t.file
  exprs := if gone.has "exprs" then #[] else t.exprs
  stmts := if gone.has "stmts" then #[] else
    t.stmts.mapIdx fun i s => s.withDefaults StmtKind.withDefaults ((gone.member "stmts").item i)
  specs := if gone.has "type_specs" then #[] else
    t.specs.mapIdx fun i s => s.withDefaults SpecKind.withDefaults ((gone.member "type_specs").item i)
  declarators := if gone.has "declarators" then #[] else t.declarators
  externs := if gone.has "externs" then [] else t.externs
  root := if gone.has "root" then [] else t.root

/-- Every floating literal of the tree is finite. -/
def Tree.IsFinite (t : Tree) : Prop := ∀ e ∈ t.exprs, ∀ x, e.kind = .double x → x.isFinite = true

@[simp]
theorem AggregateDecl.withDefaults_nothing (a : AggregateDecl) : a.withDefaults .nothing = a := by
  have hfield (v : VariableDecl) : v.withDefaults .nothing = v := rfl
  simp [withDefaults, hfield, mapIdx_self]

@[simp]
theorem SpecKind.withDefaults_nothing (k : SpecKind) : k.withDefaults .nothing = k := by
  cases k <;> simp [withDefaults]

@[simp]
theorem StmtKind.withDefaults_nothing (k : StmtKind) : k.withDefaults .nothing = k := by
  cases k <;> simp [withDefaults, VariableDecl.withDefaults, FunctionDecl.withDefaults]

theorem Tree.withDefaults_nothing (t : Tree) : t.withDefaults .nothing = t := by
  have hself {α : Type} (nodes : Array α) : (nodes.mapIdx fun _ n => n) = nodes :=
    Array.toList_inj.1 (by rw [Array.toList_mapIdx, mapIdx_self])
  simp [withDefaults, Node.withDefaults, hself]

namespace Format

/-! ### Leaves -/

section Leaves

variable (gone : Omissions)

theorem nat?_trim {n bound : Nat} (h : n < bound) : (trim gone (.ofNat n)).nat? bound = some n := by
  have htrim : trim gone (.ofNat n) = .int n := rfl
  simp [htrim, Json.nat?, Json.int?, h]

@[simp]
theorem word?_trim (n : UInt32) : word? (trim gone (ofWord n)) = some n := by
  rw [word?, ofWord, nat?_trim gone n.toNat_lt_size, Option.map_some, UInt32.ofNat_toNat]

/-- A handle is written and read as its number. -/
@[simp]
theorem handle?_trim :
    (∀ id, exprId? (trim gone (ofExprId id)) = some id) ∧ (∀ id, stmtId? (trim gone (ofStmtId id)) = some id) ∧
      (∀ id, specId? (trim gone (ofSpecId id)) = some id) ∧
        ∀ id, declaratorId? (trim gone (ofDeclaratorId id)) = some id := by
  simp [exprId?, ofExprId, stmtId?, ofStmtId, specId?, ofSpecId, declaratorId?, ofDeclaratorId]

@[simp]
theorem text?_trim (s : String) : (trim gone (.text s)).text? = some s :=
  congrArg Json.text? (rfl : trim gone (.text s) = .text s)

@[simp]
theorem bool?_trim (b : Bool) : (trim gone (.bool b)).bool? = some b :=
  congrArg Json.bool? (rfl : trim gone (.bool b) = .bool b)

@[simp]
theorem binaryOp?_trim (op : BinaryOp) :
    named? binaryNames (trim gone (.text (nameOf binaryNames op))) = some op := by
  cases op <;> rfl

@[simp]
theorem unaryOp?_trim (op : UnaryOp) :
    named? unaryNames (trim gone (.text (nameOf unaryNames op))) = some op := by
  cases op <;> rfl

@[simp]
theorem stepOp?_trim (op : StepOp) : named? stepNames (trim gone (.text (nameOf stepNames op))) = some op := by
  cases op <;> rfl

@[simp]
theorem storage?_trim (s : Storage) :
    named? storageNames (trim gone (.text (nameOf storageNames s))) = some s := by
  cases s <;> rfl

end Leaves

/-! ### Lists -/

section Lists

variable {read : Json → Option α} {write : α → Json} {settle : Omissions → α → α} (gone : Omissions) {items : List α}

theorem mapM_trimItems (h : ∀ a ∈ items, ∀ gone, read (trim gone (write a)) = some (settle gone a)) (i : Nat) :
    (trimItems gone i (items.map write)).mapM read =
      some (items.mapIdx fun j a => settle (gone.item (i + j)) a) := by
  induction items generalizing i with
  | nil => rfl
  | cons a rest ih =>
    have hrest := ih (fun b hb => h b (.tail a hb)) (i + 1)
    simp only [List.map_cons, trimItems, List.mapM_cons, h a (.head rest), hrest, Option.bind_eq_bind,
      Option.bind_some, List.mapIdx_cons, Nat.add_right_comm i 1, Nat.add_assoc i, Nat.add_zero, Option.pure_def]

theorem list?_trim (h : ∀ a ∈ items, ∀ gone, read (trim gone (write a)) = some (settle gone a)) :
    list? read (trim gone (ofList write items)) = some (items.mapIdx fun i a => settle (gone.item i) a) := by
  have hread := mapM_trimItems gone h 0
  simp only [Nat.zero_add] at hread
  exact hread

@[simp]
theorem list?_trim_self (h : ∀ a ∈ items, ∀ gone, read (trim gone (write a)) = some a) :
    list? read (trim gone (ofList write items)) = some items := by
  have hread : list? read (trim gone (ofList write items)) = some (items.mapIdx fun _ a => a) := list?_trim gone h
  rw [hread, mapIdx_self]

end Lists

/-! ### Optional values -/

/-- Values that are neither null nor left for the reader to decide. -/
inductive IsSolid : Json → Prop
  | bool (b : Bool) : IsSolid (.bool b)
  | int (v : Int) : IsSolid (.int v)
  | text (s : String) : IsSolid (.text s)
  | list (items : List Json) : IsSolid (.list items)
  | object (members : List (String × Json)) : IsSolid (.object members)

attribute [simp] IsSolid.text IsSolid.bool

@[simp]
theorem isSolid_ofWord (n : UInt32) : IsSolid (ofWord n) := .int _

@[simp]
theorem isSolid_handle :
    (∀ id, IsSolid (ofExprId id)) ∧ (∀ id, IsSolid (ofStmtId id)) ∧ (∀ id, IsSolid (ofSpecId id)) ∧
      ∀ id, IsSolid (ofDeclaratorId id) :=
  ⟨fun _ => .int _, fun _ => .int _, fun _ => .int _, fun _ => .int _⟩

@[simp]
theorem isSolid_ofList (write : α → Json) (items : List α) : IsSolid (ofList write items) := .list _

@[simp]
theorem mayMiss_storage (x : Json) : mayMiss "storage" x = true := rfl

@[simp]
theorem mayMiss_of_isSolid {name : String} {x : Json} (hname : name ≠ "storage") (hx : IsSolid x) :
    mayMiss name x = false := by
  have hnull : x.isNull = false := by cases hx <;> rfl
  simp [mayMiss, hname, hnull]

theorem nullable?_trim {read : Json → Option α} {x : Json} (gone : Omissions) (hx : IsSolid x) :
    nullable? read (trim gone x) = (read (trim gone x)).map some := by
  cases hx <;> rfl

section Optional

variable {read : Json → Option α} {write : α → Json} {a : Option α} {gone : Omissions}

theorem nullable?_trim_ofOption {settle : Omissions → α → α} (hsolid : ∀ v, IsSolid (write v))
    (h : ∀ v ∈ a, ∀ gone, read (trim gone (write v)) = some (settle gone v)) :
    nullable? read (trim gone (Json.ofOption write a)) = some (a.map (settle gone)) := by
  cases a with
  | none => rfl
  | some v => rw [Json.ofOption, nullable?_trim gone (hsolid v), h v rfl, Option.map_some, Option.map_some]

@[simp]
theorem nullable?_trim_self (hsolid : ∀ v, IsSolid (write v))
    (h : ∀ v ∈ a, ∀ gone, read (trim gone (write v)) = some v) :
    nullable? read (trim gone (Json.ofOption write a)) = some a := by
  have hread : nullable? read (trim gone (Json.ofOption write a)) = some (a.map fun v => v) :=
    nullable?_trim_ofOption hsolid h
  rwa [Option.map_id'] at hread

/-- An optional field is left out only if it holds nothing, and then nothing is what is read for it. -/
@[simp]
theorem ite_mayMiss_ofOption {name : String} {c : Prop} [Decidable c] {b : Option β} (hname : name ≠ "storage")
    (hsolid : ∀ v, IsSolid (write v)) (hnone : a = none → b = none) :
    (if mayMiss name (Json.ofOption write a) = true ∧ c then some none else some b) = some b := by
  cases a with
  | none => rw [hnone rfl, ite_id]
  | some v => rw [Json.ofOption, mayMiss_of_isSolid hname (hsolid v), if_neg fun h => Bool.false_ne_true h.1]

end Optional

/-! ### Choices -/

/-- A choice is read by the alternative that it names, whatever it is that is held. -/
theorem read_holding {read : Json → Option α} {a : α} (gone : Omissions) {name : String} {x : Json}
    (hname : name ∉ "storage" :: optionalNames)
    (h : ∀ y, y = trim (gone.member name) x → read (.object [(name, y)]) = some a) :
    read (trim gone (holding name x)) = some a := by
  obtain ⟨hstorage, hoptional⟩ := not_or.1 (mt List.mem_cons.2 hname)
  have hmust : mayMiss name x = false := by simp [mayMiss, hstorage, hoptional]
  rw [holding, trim_object, trimMembers, hmust, Bool.false_and, if_neg Bool.false_ne_true, trimMembers, h _ rfl]

/-! ### Declarations -/

-- Every member of a record has its own name, so the members before it are passed over.
attribute [local simp] bind_fields?_trimMembers bind_originFields?_trimMembers required_keptFields
  optional_keptFields withDefault_keptFields valueOf_cons_of_ne

@[simp]
theorem variableDecl?_trim (gone : Omissions) (v : VariableDecl) :
    variableDecl? (trim gone (ofVariableDecl v)) = some (v.withDefaults gone) := by
  simp [ofVariableDecl, variableDecl?, ← apply_ite some, VariableDecl.withDefaults]

@[simp]
theorem paramDecl?_trim (gone : Omissions) (p : ParamDecl) : paramDecl? (trim gone (ofParamDecl p)) = some p := by
  simp [ofParamDecl, paramDecl?]

@[simp]
theorem functionDecl?_trim (gone : Omissions) (d : FunctionDecl) :
    functionDecl? (trim gone (ofFunctionDecl d)) = some (d.withDefaults gone) := by
  simp [ofFunctionDecl, functionDecl?, FunctionDecl.withDefaults]
  split <;> rfl

@[simp]
theorem aggregateDecl?_trim (gone : Omissions) (a : AggregateDecl) :
    aggregateDecl? (trim gone (ofAggregateDecl a)) = some (a.withDefaults gone) := by
  have hfields : ∀ fields ∈ a.fields, ∀ gone, list? variableDecl? (trim gone (ofList ofVariableDecl fields)) =
      some (fields.mapIdx fun i v => v.withDefaults (gone.item i)) :=
    fun _ _ gone => list?_trim gone fun v _ gone => variableDecl?_trim gone v
  simp [ofAggregateDecl, aggregateDecl?, AggregateDecl.withDefaults, nullable?_trim_ofOption _ hfields]

/-! ### Expressions, types, declarators and statements -/

-- The alternative is chosen while what it holds is still a variable: its value would be computed along with it.
theorem exprKind?_trim (o : Origin) (gone : Omissions) (k : ExprKind)
    (hfinite : ∀ x, k = .double x → x.isFinite = true) : exprKind? o (trim gone (ofExprKind k)) = some k := by
  cases k <;> refine read_holding gone (by decide) fun y hy => ?_ <;>
    dsimp only [exprKind?, choice?, Option.bind_eq_bind, Option.bind_some] <;> simp only <;> subst hy
  case integer n => simp [nat?_trim _ n.toNat_lt_size]
  case char c => simp [nat?_trim _ c.toNat_lt_size]
  case double x =>
    rw [Json.ofFloat, if_pos (hfinite x rfl)]
    rfl
  all_goals simp

theorem specKind?_trim (o : Origin) (gone : Omissions) (k : SpecKind) :
    specKind? o (trim gone (ofSpecKind k)) = some (k.withDefaults gone) := by
  cases k <;> refine read_holding gone (by decide) fun y hy => ?_ <;>
    dsimp only [specKind?, choice?, Option.bind_eq_bind, Option.bind_some] <;> simp only <;> subst hy
  all_goals simp [SpecKind.withDefaults]

theorem declaratorKind?_trim (o : Origin) (gone : Omissions) (k : DeclaratorKind) :
    declaratorKind? o (trim gone (ofDeclaratorKind k)) = some k := by
  cases k
  case anonymous => rfl
  all_goals
    refine read_holding gone (by decide) fun y hy => ?_
    dsimp only [declaratorKind?, choice?, Option.bind_eq_bind, Option.bind_some]
    simp only
    subst hy
    simp

theorem stmtKind?_trim (o : Origin) (gone : Omissions) (k : StmtKind) :
    stmtKind? o (trim gone (ofStmtKind k)) = some (k.withDefaults gone) := by
  cases k
  case brk => rfl
  case cont => rfl
  all_goals
    refine read_holding gone (by decide) fun y hy => ?_
    dsimp only [stmtKind?, choice?, Option.bind_eq_bind, Option.bind_some]
    simp only
    subst hy
    simp [StmtKind.withDefaults]

/-! ### Trees -/

section Nodes

variable {read : Json → Option α} {write : α → Json} {settle : Omissions → α → α} (gone : Omissions)

theorem node?_trim {n : Node α} (h : ∀ gone, read (trim gone (write n.kind)) = some (settle gone n.kind)) :
    node? read (trim gone (ofNode write n)) = some (n.withDefaults settle gone) := by
  have hkind : mayMiss "kind" (write n.kind) = false := by simp [mayMiss, optionalNames]
  simp [ofNode, node?, h, hkind, Node.withDefaults]

theorem arena?_trim {nodes : Array (Node α)}
    (h : ∀ n ∈ nodes, ∀ gone, read (trim gone (write n.kind)) = some (settle gone n.kind)) :
    arena? read (trim gone (ofList (ofNode write) nodes.toList)) =
      some (nodes.mapIdx fun i n => n.withDefaults settle (gone.item i)) := by
  rw [arena?, list?_trim gone fun n hn gone => node?_trim gone (h n (Array.mem_toList_iff.1 hn)), Option.map_some,
    ← Array.toList_mapIdx, Array.toArray_toList]

theorem arena?_trim_self {nodes : Array (Node α)}
    (h : ∀ n ∈ nodes, ∀ gone, read (trim gone (write n.kind)) = some n.kind) :
    arena? read (trim gone (ofList (ofNode write) nodes.toList)) = some nodes := by
  have hnode (n : Node α) (hn : n ∈ nodes.toList) (gone : Omissions) :
      node? read (trim gone (ofNode write n)) = some (n.withDefaults (fun _ k => k) gone) :=
    node?_trim gone (h n (Array.mem_toList_iff.1 hn))
  have hread : list? (node? read) (trim gone (ofList (ofNode write) nodes.toList)) = some nodes.toList :=
    list?_trim_self gone hnode
  rw [arena?, hread, Option.map_some, Array.toArray_toList]

end Nodes

theorem decode?_trimTree (o : Origin) (gone : Omissions) {t : Tree} (hfinite : t.IsFinite) :
    decode? o (trimTree gone (encode t)) = some (t.withDefaults gone) := by
  have hexprs (gone) := arena?_trim_self gone fun e he gone => exprKind?_trim o gone e.kind (hfinite e he)
  have hstmts (gone) := arena?_trim gone fun s (_ : s ∈ t.stmts) gone => stmtKind?_trim o gone s.kind
  have hspecs (gone) := arena?_trim gone fun s (_ : s ∈ t.specs) gone => specKind?_trim o gone s.kind
  have hdeclarators (gone) :=
    arena?_trim_self gone fun d (_ : d ∈ t.declarators) gone => declaratorKind?_trim o gone d.kind
  simp [encode, trimTree, decode?, hexprs, hstmts, hspecs, hdeclarators, ← apply_ite some, Tree.withDefaults]

theorem mapM_eq_none {read : α → Option β} {items : List α} {a : α} (ha : a ∈ items) (h : read a = none) :
    items.mapM read = none := by
  induction ha with
  | head rest => rw [List.mapM_cons, h]; rfl
  | tail b _ ih =>
    rw [List.mapM_cons, ih]
    cases read b <;> rfl

/-- A floating literal that is not finite is written as null, and that is read as no literal. -/
theorem decode?_encode_eq_none (o : Origin) {t : Tree} {e : Expr} (he : e ∈ t.exprs) {x : Float}
    (hkind : e.kind = .double x) (hx : x.isFinite = false) : decode? o (encode t) = none := by
  have hread : node? (exprKind? o) (ofNode ofExprKind e) = none := by
    rw [ofNode, hkind, ofExprKind, Json.ofFloat, if_neg (Bool.eq_false_iff.1 hx)]
    rfl
  have hexprs : arena? (exprKind? o) (ofList (ofNode ofExprKind) t.exprs.toList) = none := by
    have hmap := mapM_eq_none (List.mem_map_of_mem (Array.mem_toList_iff.2 he)) hread
    rw [arena?, list?, ofList, Json.list?, Option.bind_eq_bind, Option.bind_some, hmap, Option.map_none]
  rw [← trimTree_nothing (encode t)]
  simp [encode, trimTree, decode?, trim_nothing, hexprs]

end Format

namespace Tree

/-- **The format round-trips.** -/
theorem round_trips {t : Tree} (hfinite : t.IsFinite) (o : Origin) :
    decode? o (encode t) = some t ∧
      ∀ gone : Omissions, decode? o (trimTree gone (encode t)) = some (t.withDefaults gone) := by
  refine ⟨?_, fun gone => decode?_trimTree o gone hfinite⟩
  rw [← trimTree_nothing (encode t), decode?_trimTree o .nothing hfinite, withDefaults_nothing]

/-- A tree with a literal and a static variable. -/
def staticTree : Tree where
  file := "a.c"
  exprs := #[⟨.double 2.5, 1⟩]
  stmts := #[⟨.variable ⟨.static, ⟨0⟩, [⟨1⟩]⟩, 1⟩]
  specs := #[⟨.named "double", 1⟩]
  declarators := #[⟨.identifier "x", 1⟩, ⟨.init ⟨0⟩ ⟨0⟩, 1⟩]
  root := [⟨0⟩]

/-- The name of the file, the list of what comes before the top level, and the storage class of the variable. -/
def staticOmissions : Omissions := fun path =>
  [[.member "file"], [.member "externs"],
    [.member "stmts", .item 0, .member "kind", .member "Variable", .member "storage"]].contains path

theorem round_trips_static :
    staticTree.IsFinite ∧ (∀ o, decode? o (encode staticTree) = some staticTree) ∧
      ∀ o, decode? o (trimTree staticOmissions (encode staticTree)) =
        some { staticTree with file := "", stmts := #[⟨.variable ⟨.normal, ⟨0⟩, [⟨1⟩]⟩, 1⟩] } := by
  have hfinite : staticTree.IsFinite := by
    intro e he x hx
    obtain rfl : e = ⟨.double 2.5, 1⟩ := by simpa [staticTree] using he
    cases hx
    decide +kernel
  exact ⟨hfinite, fun o => (round_trips hfinite o).1, fun o => (round_trips hfinite o).2 staticOmissions⟩

/-- A branch without another one may be written without it. -/
example : trim (fun _ => true) (ofStmtKind (.branch ⟨0⟩ ⟨1⟩ none)) =
    .object [("If", .object [("cond", .int 0), ("then", .int 1)])] := rfl

end Tree

end TreeFlow
